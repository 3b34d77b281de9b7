import Nachos.Filesys.Streams

/-!
# What the server sends back

`handleClientCommingMessage` reads a message into a buffer that it has filled with zeros, and takes the
buffer for a string. The zero that ends the string is one of the message or one that the message has
left in the buffer: a message that fills the buffer and has no zero leaves none, and `printf` and `strlen`
go on behind the buffer (`echo_iff`).
-/

namespace Nachos

open Base Streams

variable {s : Files} {client : Socket} {fd id : Int} {message data : List Byte}
  {received written : Answer} {answers : List Answer}

/-! ## Strings in upper case -/

theorem toupper_eq_zero (c : Byte) : toupper c = 0 ↔ c = 0 := by
  revert c
  decide +kernel

theorem cString_append_zeros (l : List Byte) (k : Nat) :
    cString (l ++ List.replicate k 0) = cString l := by
  unfold cString
  induction l with
  | nil =>
    rw [List.nil_append, List.takeWhile_replicate, if_neg (by simp)]
    rfl
  | cons c l ih =>
    rw [List.cons_append, List.takeWhile_cons, List.takeWhile_cons, ih]

theorem cString_toupper (l : List Byte) : cString (l.map toupper) = (cString l).map toupper := by
  have hzero : ((fun c : Byte => decide (c ≠ 0)) ∘ toupper) = fun c => decide (c ≠ 0) := by
    funext c
    exact decide_eq_decide.2 (not_congr (toupper_eq_zero c))
  unfold cString
  rw [List.takeWhile_map, hzero]

/-! ## The calls of the host -/

theorem clientOf_run (h : s.getStream id = some (.socket client)) :
    (clientOf id).run s = .ok client s := by
  unfold clientOf
  rw [run_get_bind, h]
  rfl

theorem fd_run (hfd : client.socketFd = some fd) : client.fd.run s = .ok fd s := by
  unfold Socket.fd
  rw [hfd]
  rfl

theorem answer_run (ha : s.answers = received :: answers) :
    answer.run s = .ok received { s with answers } := by
  unfold answer
  rw [run_get_bind, ha]
  rfl

theorem read_run (hfd : client.socketFd = some fd) (ha : s.answers = received :: answers)
    (hval : 0 ≤ received.value) (hlen : received.bytes.length ≤ maxAllowedBufferSize) :
    (client.read (List.replicate maxAllowedBufferSize 0) maxAllowedBufferSize).run s =
      .ok (received.bytes.length, received.bytes ++
        List.replicate (maxAllowedBufferSize - received.bytes.length) 0) { s with answers } := by
  unfold Socket.read
  rw [run_discard_bind (fd_run hfd), if_neg (by decide), run_step (answer_run ha),
    if_neg (by omega), Int.toNat_natCast, List.take_of_length_le hlen, EStateM.run_bind]
  unfold fillBuffer
  rw [if_neg (by rw [List.length_replicate]; omega), List.drop_replicate]
  rfl

theorem write_run (hfd : client.socketFd = some fd) (ha : s.answers = written :: answers) :
    (client.write data).run s =
      .ok written.value { s with answers, sent := s.sent ++ [(fd, data)] } := by
  unfold Socket.write
  rw [run_step (fd_run hfd), run_step (EStateM.run_modify ..),
    run_step (answer_run (by exact ha))]
  rfl

/-! ## The reply -/

/-- **The reply.** The message comes back in upper case, up to its first zero, unless it fills the buffer
and has no zero. -/
theorem echo_iff (ss : ServerSocket) (index : Nat) (id : Int)
    (hid : s.getStream id = some (.socket client)) (hfd : client.socketFd = some fd)
    (ha : s.answers = received :: written :: answers) (hval : 0 ≤ received.value)
    (hpos : 1 ≤ received.bytes.length) (hlen : received.bytes.length ≤ maxAllowedBufferSize) :
    (ss.handleClientCommingMessage index id).run s =
        .ok ss { s with
          answers := answers
          sent := s.sent ++ [(fd, (received.bytes.takeWhile (· ≠ 0)).map toupper)] } ↔
      received.bytes.length < maxAllowedBufferSize ∨ 0 ∈ received.bytes := by
  have hzero : 0 ∈ received.bytes ++
      List.replicate (maxAllowedBufferSize - received.bytes.length) 0 ↔
      received.bytes.length < maxAllowedBufferSize ∨ 0 ∈ received.bytes := by
    rw [List.mem_append, List.mem_replicate, Nat.sub_ne_zero_iff_lt, and_iff_left rfl, or_comm]
  unfold ServerSocket.handleClientCommingMessage
  rw [run_step (clientOf_run hid), run_step (read_run hfd ha hval hlen)]
  dsimp only
  rw [if_neg (by omega)]
  by_cases h : received.bytes.length < maxAllowedBufferSize ∨ 0 ∈ received.bytes
  · have hupper : 0 ∈ received.bytes.map toupper ++
        List.replicate (maxAllowedBufferSize - received.bytes.length) 0 := by
      rw [List.mem_append, List.mem_replicate]
      rcases h with hlt | hmem
      · exact .inr ⟨by omega, rfl⟩
      · exact .inl (List.mem_map.2 ⟨0, hmem, by decide⟩)
    rw [if_neg (not_not.2 (hzero.2 h)), Int.toNat_natCast, List.take_left' rfl,
      List.drop_left' rfl, if_neg (not_not.2 hupper), run_discard_bind (write_run hfd (by rfl)),
      cString_append_zeros, cString_toupper]
    exact iff_of_true rfl h
  · rw [if_pos (mt hzero.1 h)]
    refine iff_of_false ?_ h
    intro hrun
    cases hrun

def oneClient (message : List Byte) : Files where
  fdt fd := if fd = 2 then some (.socket ⟨some 5, []⟩) else none
  host := ⟨fun _ => none, fun _ => [], 0, fun _ => true⟩
  answers := [⟨message.length, message, fun _ => false⟩, ⟨message.length, [], fun _ => false⟩]
  junk := []
  typed := []
  console := []
  sent := []

theorem echo_iff_abc : ∃ s', (ServerSocket.handleClientCommingMessage ⟨3, [], [2], 0⟩ 0 2).run
      (oneClient [97, 98, 0, 99]) = .ok ⟨3, [], [2], 0⟩ s' ∧ s'.sent = [(5, [65, 66])] := by
  have hrun := (echo_iff (s := oneClient [97, 98, 0, 99]) ⟨3, [], [2], 0⟩ 0 2 rfl rfl rfl (by decide)
    (by decide) (by decide)).2 (.inl (by decide))
  exact ⟨_, hrun, rfl⟩

theorem echo_full : (ServerSocket.handleClientCommingMessage ⟨3, [], [2], 0⟩ 0 2).run
      (oneClient (List.replicate 64 97)) =
    .error (.fault .undefined)
      { oneClient (List.replicate 64 97) with answers := [⟨64, [], fun _ => false⟩] } := by
  rfl

end Nachos
