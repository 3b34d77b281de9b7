import Nachos.Filesys.Proof.Calls
import Nachos.Userprog.Proof.Buffers

/-!
# Transfers between user memory and streams

`SC_Write` passes a file what `User2System` makes of the user's bytes, and `SC_Read` and `SC_Receive`
write what a stream has returned with `System2User`. Both copies stop at a zero byte, and `SC_Read`
gives its whole buffer to the copy, not only what was read. So a transfer is exact on some contents
only: `transfer_exact_iff`.
-/

namespace Nachos

open Base Streams

/-! ## Bytes around a zero -/

def behindZero (cs : List Byte) : List Byte := cs.drop (upToZero cs).length

theorem upToZero_isPrefix (cs : List Byte) : upToZero cs <+: cs := by
  induction cs with
  | nil => exact List.prefix_rfl
  | cons c cs ih =>
    rw [upToZero]
    split
    · rename_i hc
      exact ⟨cs, by rw [hc]; rfl⟩
    · exact (List.prefix_cons_inj c).2 ih

theorem upToZero_append_behindZero (cs : List Byte) : upToZero cs ++ behindZero cs = cs :=
  List.prefix_iff_eq_append.1 (upToZero_isPrefix cs)

theorem length_clipped (cs : List Byte) : (clipped cs).length = cs.length := by
  have := length_upToZero_le cs
  rw [clipped, List.length_append, List.length_replicate]
  omega

theorem clipped_eq_iff (cs : List Byte) : clipped cs = cs ↔ ∀ b ∈ behindZero cs, b = 0 := by
  have hlen : (behindZero cs).length = cs.length - (upToZero cs).length := List.length_drop
  rw [← List.eq_replicate_length (l := behindZero cs), hlen, clipped, eq_comm]
  nth_rewrite 1 [← upToZero_append_behindZero cs]
  rw [List.append_cancel_left_eq]

/-- The bytes behind the first zero of `data` are in the block `old` already. -/
def StandsBehindZero (old data : List Byte) : Prop :=
  behindZero data <+: old.drop (upToZero data).length

theorem upToZero_over_iff (old data : List Byte) :
    upToZero data ++ old.drop (upToZero data).length = data ++ old.drop data.length ↔
      StandsBehindZero old data := by
  have hlen : data.length = (upToZero data).length + (behindZero data).length := by
    rw [← List.length_append, upToZero_append_behindZero]
  have hdata : data ++ old.drop data.length =
      upToZero data ++ (behindZero data ++ (old.drop (upToZero data).length).drop
        (behindZero data).length) := by
    rw [← List.append_assoc, upToZero_append_behindZero, List.drop_drop, ← hlen]
  rw [hdata, List.append_cancel_left_eq, StandsBehindZero, List.prefix_iff_eq_append, eq_comm]

theorem standsBehindZero_of_not_mem {old data : List Byte} (h : 0 ∉ data) :
    StandsBehindZero old data := by
  rw [StandsBehindZero, behindZero, upToZero_of_not_mem h, List.drop_length]
  exact List.nil_prefix

theorem upToZero_padded_iff {old data : List Byte} {k : Nat} (h : data.length + k = old.length) :
    upToZero (data ++ List.replicate k 0) ++ old.drop (upToZero (data ++ List.replicate k 0)).length =
        data ++ old.drop data.length ↔
      StandsBehindZero old data ∧
        (0 ∉ data → data.length < old.length → old[data.length]? = some 0) := by
  rw [upToZero_append]
  by_cases hz : 0 ∈ data
  · rw [if_pos hz, upToZero_over_iff]
    exact (and_iff_left fun hn => absurd hz hn).symm
  · rw [if_neg hz]
    have hstands : StandsBehindZero old data := standsBehindZero_of_not_mem hz
    cases k with
    | zero =>
      rw [List.replicate_zero, upToZero, List.append_nil]
      exact iff_of_true rfl ⟨hstands, fun _ hlt => by omega⟩
    | succ k =>
      have hlt : data.length < old.length := by omega
      rw [List.replicate_succ, upToZero, if_pos rfl, List.append_assoc, List.append_cancel_left_eq,
        List.length_append, List.length_singleton, List.drop_eq_getElem_cons hlt,
        List.singleton_append, List.cons.injEq, List.getElem?_eq_getElem hlt, Option.some_inj]
      constructor
      · rintro ⟨h0, -⟩
        exact ⟨hstands, fun _ _ => h0.symm⟩
      · rintro ⟨-, h0⟩
        exact ⟨(h0 hz hlt).symm, rfl⟩

/-! ## Handlers over the streams -/

section

variable {cfg : Build} {sys : Services Files} {s : KernelState Files} {k k' : Files} {fd : Int}
    {n : Nat} {buffer old : List Byte} {κ : Type} {stream stream' : Stream} {r : Option (List Byte)}

theorem call_service_run {α β : Type} {x : FilesM α} {f : α → β} {a : α}
    (h : x.run s.kernel = .ok a k) : (call (x.service f)).run s = .ok (f a) { s with kernel := k } := by
  dsimp only [EStateM.run, call, FilesM.service] at h ⊢
  rw [h]
  rfl

/-- What a stream returns to a read of `n` bytes, whatever buffer it gets: these bytes, or an error. -/
def ReadReturns (k : Files) (stream : Stream) (n : Nat) (r : Option (List Byte)) (stream' : Stream)
    (k' : Files) : Prop :=
  ((r.getD []).length ≤ n) ∧ ∀ buffer : List Byte, n ≤ buffer.length →
    (stream.read buffer n).run k = .ok (match r with
      | some data => (data.length, data ++ buffer.drop data.length, stream')
      | none => (-1, buffer, stream')) k'

def readResult (r : Option (List Byte)) : Word := toWord (r.elim (-1) fun data => data.length)

structure Buffered (sys : Services Files) (m : Machine) (buf size : Word) (old : List Byte) : Prop where
  mapped : m.Mapped
  holds : UserHolds m buf old
  length : size.toNat = old.length
  le : old.length ≤ maxAllowedBufferSize
  fits : sys.fits (old.length + 1) = true

theorem Buffered.toInt {m : Machine} {buf size : Word} (h : Buffered sys m buf size old) :
    size.toInt = old.length := by
  rw [toInt_of_le (h.length ▸ length_le_of_userHolds h.mapped h.holds), h.length]

/-! ## `SC_Write` -/

theorem scWrite_run (cfg : Build) (sys : Services κ) (s : KernelState κ) :
    (scWrite cfg sys).run s = (user2System cfg sys (s.machine.gp 4) (s.machine.gp 5) >>= fun buffer => do
      finish (← call (sys.sysWrite buffer (s.machine.gp 5) (s.machine.gp 6)))).run s := rfl

theorem withFiles_sysWrite (buffer : List Byte) (size fd : Word) :
    sys.withFiles.sysWrite buffer size fd =
      (sysWrite buffer size.toInt fd.toInt).service toWord := rfl

theorem scWrite_file (cfg : Build) {f : DyOpenFile}
    (hb : Buffered sys s.machine (s.machine.gp 4) (s.machine.gp 5) old)
    (hs : s.kernel.getStream (s.machine.gp 6).toInt = some (.file f)) (hmode : f.openMode = 1)
    (hpos : 0 ≤ f.writePos) :
    ∃ m, (scWrite cfg sys.withFiles).run s = .ok (toWord old.length)
      ⟨m, (s.kernel.written f (clipped old)).setStream (s.machine.gp 6).toInt.toNat
        (some (.file { f with writePos := f.writePos + old.length }))⟩ ∧
      m.user = s.machine.user := by
  obtain ⟨m1, hrun1, hpeek1⟩ := user2System_spec cfg sys.withFiles hb.mapped hb.holds hb.length hb.fits
  have hlt : old.length < (clipped old ++ [0]).length := by
    rw [List.length_append, length_clipped]
    exact Nat.lt_succ_self _
  have hwrite := sysWrite_file hs hmode hpos hb.le hlt
  rw [List.take_left' (length_clipped old)] at hwrite
  obtain ⟨m2, hrun2, huser2⟩ := finish_run ⟨m1, (s.kernel.written f (clipped old)).setStream
    (s.machine.gp 6).toInt.toNat (some (.file { f with writePos := f.writePos + old.length }))⟩
    (toWord old.length)
  refine ⟨m2, ?_, huser2.trans hpeek1.user⟩
  rw [scWrite_run, run_step hrun1, withFiles_sysWrite, hb.toInt, run_step (call_service_run (s := ⟨m1,
    s.kernel⟩) hwrite)]
  exact hrun2

/-- The write is exact: the file gets the user's bytes, and nothing else changes. -/
def WriteExact (cfg : Build) (sys : Services Files) (s : KernelState Files) (f : DyOpenFile)
    (old : List Byte) : Prop :=
  ∃ s', (scWrite cfg sys.withFiles).run s = .ok (toWord old.length) s' ∧
    s'.machine.gp 2 = toWord old.length ∧
    s'.kernel = (s.kernel.written f old).setStream (s.machine.gp 6).toInt.toNat
      (some (.file { f with writePos := f.writePos + old.length })) ∧
    s'.machine.user = s.machine.user

theorem writeExact_iff (cfg : Build) {f : DyOpenFile}
    (hb : Buffered sys s.machine (s.machine.gp 4) (s.machine.gp 5) old)
    (hs : s.kernel.getStream (s.machine.gp 6).toInt = some (.file f)) (hmode : f.openMode = 1)
    (hpos : 0 ≤ f.writePos) :
    WriteExact cfg sys s f old ↔ ∀ b ∈ behindZero old, b = 0 := by
  obtain ⟨m, hrun, huser⟩ := scWrite_file cfg hb hs hmode hpos
  rw [← clipped_eq_iff]
  constructor
  · rintro ⟨s', hrun', -, hkernel, -⟩
    cases hrun.symm.trans hrun'
    -- the contents of the file tell the bytes
    have hbytes := congrArg (fun k : Files => k.host.contents f.openfile.file) hkernel
    simp only [Files.host_setStream, Files.written, Function.update_self] at hbytes
    exact overwrite_injective (length_clipped old) hbytes
  · intro h
    rw [h] at hrun
    exact ⟨_, hrun, handler_gp .write hrun, rfl, huser⟩

/-! ## `SC_Read` and `SC_Receive` -/

def readInto (r : Option (List Byte)) (buffer : List Byte) : Int × List Byte :=
  (r.elim (-1) fun data => data.length, r.getD [] ++ buffer.drop (r.getD []).length)

section

variable (hs : k.getStream fd = some stream) (hr : ReadReturns k stream n r stream' k')
    (hn : n ≤ maxAllowedBufferSize) (hbuf : n ≤ buffer.length)
include hs hr hn hbuf

theorem sysRead_returns :
    (sysRead buffer n fd).run k = .ok (readInto r buffer) (k'.setStream fd.toNat (some stream')) := by
  rw [sysRead, if_neg (by omega), if_neg (getStream_range hs).1, run_get_bind, hs]
  dsimp only
  rw [run_step (hr.2 buffer hbuf)]
  have hlen := hr.1
  cases r with
  | none => rfl
  | some data =>
    change data.length ≤ n at hlen
    dsimp only
    rw [EStateM.run_bind, if_neg (by omega)]
    rfl

theorem sysReceive_returns : (sysReceive fd buffer n).run k =
      .ok (readInto r buffer) (k'.setStream fd.toNat (some stream')) := by
  rw [sysReceive, if_neg (by omega), run_get_bind, hs]
  dsimp only
  rw [run_step (hr.2 buffer hbuf)]
  cases r with
  | none => rfl
  | some data => rfl

end

/-- The read is exact: user memory gets the bytes the stream has returned, and no other byte of it
changes. -/
def ReadExact (x : HandlerM Files Word) (s : KernelState Files) (buf : Word)
    (r : Option (List Byte)) : Prop :=
  ∃ s', x.run s = .ok (readResult r) s' ∧ s'.machine.gp 2 = readResult r ∧
    s'.machine.user = writeBlock s.machine.user buf.toNat ((r.getD []).map some)

theorem readExact_iff {x : HandlerM Files Word} {buf : Word}
    {m : Machine} {bs : List Byte} (hold : UserHolds s.machine buf old)
    (hrun : x.run s = .ok (readResult r) ⟨m, k⟩) (hgp : m.gp 2 = readResult r)
    (huser : m.user = writeBlock s.machine.user buf.toNat (bs.map some))
    (hbs : bs.length ≤ old.length) (hr : (r.getD []).length ≤ old.length) :
    ReadExact x s buf r ↔
      bs ++ old.drop bs.length = r.getD [] ++ old.drop (r.getD []).length := by
  have hexact : ReadExact x s buf r ↔ m.user = writeBlock s.machine.user buf.toNat
      ((r.getD []).map some) := by
    constructor
    · rintro ⟨s', hrun', -, huser'⟩
      cases hrun.symm.trans hrun'
      exact huser'
    · intro h
      exact ⟨_, hrun, hgp, h⟩
  rw [hexact, huser, writeBlock_eq_iff hold (by simpa using hbs) (by simpa using hr)]
  rw [List.length_map, List.length_map, ← List.map_drop, ← List.map_drop, ← List.map_append,
    ← List.map_append]
  exact (List.map_injective_iff.2 (Option.some_injective Byte)).eq_iff

theorem scRead_run (cfg : Build) (sys : Services κ) (s : KernelState κ) :
    (scRead cfg sys).run s = (newArray sys (s.machine.gp 5 + 1) 1 >>= fun _ => do
      let (readCount, sysBuffer) ← call (sys.sysRead
        (List.replicate (s.machine.gp 5 + 1).toNat 0) (s.machine.gp 5) (s.machine.gp 6))
      let _ ← system2User cfg (s.machine.gp 4) (s.machine.gp 5) sysBuffer
      finish readCount).run s := by
  rw [scRead, run_step (readReg_run ..), run_step (readReg_run ..), run_step (readReg_run ..)]

theorem withFiles_sysRead (buffer : List Byte) (size fd : Word) :
    sys.withFiles.sysRead buffer size fd =
      (sysRead buffer size.toInt fd.toInt).service fun r => (toWord r.1, r.2) := rfl

theorem scRead_returns (cfg : Build)
    (hb : Buffered sys s.machine (s.machine.gp 4) (s.machine.gp 5) old)
    (hs : s.kernel.getStream (s.machine.gp 6).toInt = some stream)
    (hr : ReadReturns s.kernel stream old.length r stream' k') :
    ∃ m, (scRead cfg sys.withFiles).run s = .ok (readResult r)
      ⟨m, k'.setStream (s.machine.gp 6).toInt.toNat (some stream')⟩ ∧
      m.user = writeBlock s.machine.user (s.machine.gp 4).toNat ((upToZero
        (r.getD [] ++ List.replicate (old.length - (r.getD []).length) 0)).map some) := by
  have hnew := toNat_succ_of_length hb.mapped hb.holds hb.length
  have hcap : old.length ≤ (List.replicate (s.machine.gp 5 + 1).toNat (0 : Byte)).length := by
    rw [List.length_replicate]
    omega
  have hread := sysRead_returns hs hr hb.le hcap
  have hdata := hr.1
  have hbuffer : (readInto r (List.replicate (s.machine.gp 5 + 1).toNat 0)).2.take old.length =
      r.getD [] ++ List.replicate (old.length - (r.getD []).length) 0 := by
    rw [readInto, List.take_append, List.take_of_length_le hdata, List.drop_replicate,
      List.take_replicate]
    congr 2
    omega
  have hfull : old.length ≤ (readInto r (List.replicate (s.machine.gp 5 + 1).toNat 0)).2.length := by
    rw [readInto, List.length_append, List.length_drop]
    omega
  obtain ⟨_, m1, hrun1, htouch1, huser1⟩ := system2User_spec cfg (s := ⟨s.machine,
    k'.setStream (s.machine.gp 6).toInt.toNat (some stream')⟩) hb.mapped hb.holds hb.length hfull
  obtain ⟨m2, hrun2, huser2⟩ := finish_run ⟨m1, k'.setStream (s.machine.gp 6).toInt.toNat
    (some stream')⟩ (readResult r)
  rw [hbuffer] at huser1
  refine ⟨m2, ?_, huser2.trans huser1⟩
  have hspace : sys.withFiles.fits ((s.machine.gp 5 + 1).toNat * 1) = true := by
    rw [hnew.1, Nat.mul_one]
    exact hb.fits
  rw [scRead_run, run_step (newArray_run hnew.2 hspace), withFiles_sysRead, hb.toInt,
    run_step (call_service_run hread), run_step hrun1]
  exact hrun2

theorem scReceive_run (cfg : Build) (sys : Services κ) (s : KernelState κ) :
    (scReceive cfg sys).run s =
      (user2System cfg sys (s.machine.gp 5) (s.machine.gp 6) >>= fun buffer => do
      let (res, buffer) ← call (sys.sysReceive (s.machine.gp 4) buffer (s.machine.gp 6))
      let _ ← system2User cfg (s.machine.gp 5) res buffer
      finish res).run s := rfl

theorem withFiles_sysReceive (buffer : List Byte) (size fd : Word) :
    sys.withFiles.sysReceive fd buffer size =
      (sysReceive fd.toInt buffer size.toInt).service fun r => (toWord r.1, r.2) := rfl

theorem scReceive_returns (cfg : Build)
    (hb : Buffered sys s.machine (s.machine.gp 5) (s.machine.gp 6) old)
    (hs : s.kernel.getStream (s.machine.gp 4).toInt = some stream)
    (hr : ReadReturns s.kernel stream old.length r stream' k') :
    ∃ m, (scReceive cfg sys.withFiles).run s = .ok (readResult r)
      ⟨m, k'.setStream (s.machine.gp 4).toInt.toNat (some stream')⟩ ∧
      m.user = writeBlock s.machine.user (s.machine.gp 5).toNat
        ((upToZero (r.getD [])).map some) := by
  have hdata := hr.1
  obtain ⟨m1, hrun1, hpeek1⟩ := user2System_spec cfg sys.withFiles hb.mapped hb.holds hb.length hb.fits
  have hcap : old.length ≤ (clipped old ++ [0]).length := by
    rw [List.length_append, length_clipped]
    omega
  have hread := sysReceive_returns hs hr hb.le hcap
  have hstart : (scReceive cfg sys.withFiles).run s =
      (do
        let _ ← system2User cfg (s.machine.gp 5) (readResult r) (readInto r (clipped old ++ [0])).2
        finish (readResult r) : HandlerM Files Word).run
        ⟨m1, k'.setStream (s.machine.gp 4).toInt.toNat (some stream')⟩ := by
    rw [scReceive_run, run_step hrun1, withFiles_sysReceive, hb.toInt,
      run_step (call_service_run (s := ⟨m1, s.kernel⟩) hread)]
    rfl
  rw [hstart, ← hpeek1.user]
  cases r with
  | none =>
    obtain ⟨m2, hrun2, huser2⟩ := finish_run ⟨m1, k'.setStream (s.machine.gp 4).toInt.toNat
      (some stream')⟩ (readResult none)
    refine ⟨m2, ?_, ?_⟩
    · rw [run_step (system2User_neg cfg (by decide))]
      exact hrun2
    · rw [huser2, Option.getD_none, upToZero, List.map_nil, writeBlock_nil]
  | some data =>
    rw [Option.getD_some] at hdata
    have hres : (readResult (some data)).toNat = (old.take data.length).length := by
      have hle : old.length ≤ 64 := hb.le
      rw [List.length_take_of_le hdata, readResult, toWord, Option.elim_some, BitVec.ofInt_natCast,
        BitVec.toNat_ofNat]
      omega
    have hold1 : UserHolds m1 (s.machine.gp 5) (old.take data.length) := by
      rw [UserHolds, hpeek1.user, List.map_take]
      exact HoldsBlock.take hb.holds _
    have hfull : (old.take data.length).length ≤
        (readInto (some data) (clipped old ++ [0])).2.length := by
      rw [readInto, List.length_take_of_le hdata, List.length_append]
      exact Nat.le_add_right _ _
    obtain ⟨_, m2, hrun2, htouch2, huser2⟩ := system2User_spec cfg (s := ⟨m1,
      k'.setStream (s.machine.gp 4).toInt.toNat (some stream')⟩) (hpeek1.mapped hb.mapped) hold1 hres hfull
    obtain ⟨m3, hrun3, huser3⟩ := finish_run ⟨m2, k'.setStream (s.machine.gp 4).toInt.toNat
      (some stream')⟩ (readResult (some data))
    rw [List.length_take_of_le hdata, readInto, Option.getD_some, List.take_left] at huser2
    refine ⟨m3, ?_, huser3.trans huser2⟩
    rw [run_step hrun2]
    exact hrun3

/-! ## All transfers -/

theorem readExact_scRead_iff (cfg : Build)
    (hb : Buffered sys s.machine (s.machine.gp 4) (s.machine.gp 5) old)
    (hs : s.kernel.getStream (s.machine.gp 6).toInt = some stream)
    (hr : ReadReturns s.kernel stream old.length r stream' k') :
    ReadExact (scRead cfg sys.withFiles) s (s.machine.gp 4) r ↔ StandsBehindZero old (r.getD []) ∧
      (0 ∉ r.getD [] → (r.getD []).length < old.length →
        old[(r.getD []).length]? = some 0) := by
  obtain ⟨m, hrun, huser⟩ := scRead_returns cfg hb hs hr
  have hdata := hr.1
  have hpad : (r.getD []).length + (old.length - (r.getD []).length) = old.length := by omega
  rw [readExact_iff hb.holds hrun (handler_gp .read hrun) huser ?_ hdata, upToZero_padded_iff hpad]
  refine Nat.le_trans (length_upToZero_le _) (Nat.le_of_eq ?_)
  rw [List.length_append, List.length_replicate, hpad]

theorem readExact_scReceive_iff (cfg : Build)
    (hb : Buffered sys s.machine (s.machine.gp 5) (s.machine.gp 6) old)
    (hs : s.kernel.getStream (s.machine.gp 4).toInt = some stream)
    (hr : ReadReturns s.kernel stream old.length r stream' k') :
    ReadExact (scReceive cfg sys.withFiles) s (s.machine.gp 5) r ↔
      StandsBehindZero old (r.getD []) := by
  obtain ⟨m, hrun, huser⟩ := scReceive_returns cfg hb hs hr
  rw [readExact_iff hb.holds hrun (handler_gp .receive hrun) huser
    (Nat.le_trans (length_upToZero_le _) hr.1) hr.1, upToZero_over_iff]

/-- **When a transfer is exact.** A write is, if nothing but zeroes stands behind a zero of the user's
bytes. A read or receive is, if what stands behind a zero of the stream's bytes is in the user's buffer
already; a read also needs a zero in the buffer behind bytes that do not fill it and have no zero
themselves (behind no bytes, if the stream's read has failed). -/
theorem transfer_exact_iff (cfg : Build) (sys : Services Files) {s : KernelState Files}
    {buf size fd : Word} {old : List Byte} {stream : Stream} (hreach : s.kernel.Reachable)
    (hm : s.machine.Mapped) (hold : UserHolds s.machine buf old) (hsize : size.toNat = old.length)
    (hle : old.length ≤ maxAllowedBufferSize) (hfits : sys.fits (old.length + 1) = true)
    (hs : s.kernel.getStream fd.toInt = some stream) :
    (s.machine.gp 4 = buf ∧ s.machine.gp 5 = size ∧ s.machine.gp 6 = fd →
      (∀ f, stream = .file f → f.openMode = 1 →
        (WriteExact cfg sys s f old ↔ ∀ b ∈ behindZero old, b = 0)) ∧
      ∀ r stream' k', ReadReturns s.kernel stream old.length r stream' k' →
        (ReadExact (scRead cfg sys.withFiles) s buf r ↔ StandsBehindZero old (r.getD []) ∧
          (0 ∉ r.getD [] → (r.getD []).length < old.length →
            old[(r.getD []).length]? = some 0))) ∧
    (s.machine.gp 4 = fd ∧ s.machine.gp 5 = buf ∧ s.machine.gp 6 = size →
      ∀ r stream' k', ReadReturns s.kernel stream old.length r stream' k' →
        (ReadExact (scReceive cfg sys.withFiles) s buf r ↔ StandsBehindZero old (r.getD []))) := by
  constructor
  · rintro ⟨rfl, rfl, rfl⟩
    constructor
    · rintro f rfl hmode
      exact writeExact_iff cfg ⟨hm, hold, hsize, hle, hfits⟩ hs hmode (hreach.wellFormed.ok hs).2
    · intro r stream' k' hr
      exact readExact_scRead_iff cfg ⟨hm, hold, hsize, hle, hfits⟩ hs hr
  · rintro ⟨rfl, rfl, rfl⟩ r stream' k' hr
    exact readExact_scReceive_iff cfg ⟨hm, hold, hsize, hle, hfits⟩ hs hr

end

/-- The call `(0, size, 2)` with these bytes at address 0. -/
def transferCall (bytes : List Byte) (size : Word) : KernelState Files :=
  ⟨onePage bytes 0 size 2, openedFiles⟩

theorem readReturns_openedFile (n : Nat) : ∃ stream' k', ReadReturns openedFiles (.file openedFile) n
    (some ([1, 2, 3].take n)) stream' k' :=
  ⟨_, _, List.length_take_le _ _, fun _ hb => read_file (Int.le_refl 0) hb⟩

/-- A zero before another byte is not written as it is; a read of four bytes from a file with three
changes a fourth byte. -/
theorem transfer_not_exact :
    ¬ WriteExact buildLinux (stoppedServices Files) (transferCall [0, 7] 2) openedFile [0, 7] ∧
      ¬ ReadExact (scRead buildLinux (stoppedServices Files).withFiles)
        (transferCall [9, 9, 9, 9] 4) 0 (some [1, 2, 3]) := by
  constructor
  · rw [writeExact_iff (s := transferCall [0, 7] 2) buildLinux ⟨mapped_onePage _ _ _ _,
      userHolds_onePage 0 2 2 (by decide), rfl, by decide, rfl⟩ rfl rfl (Int.le_refl 0)]
    decide
  · obtain ⟨stream', k', hr⟩ := readReturns_openedFile 4
    intro hexact
    have hiff := readExact_scRead_iff (s := transferCall [9, 9, 9, 9] 4) buildLinux
      (show Buffered (stoppedServices Files) _ _ _ [9, 9, 9, 9] from ⟨mapped_onePage _ _ _ _,
        userHolds_onePage 0 4 2 (by decide), rfl, by decide, rfl⟩) rfl hr
    exact absurd ((hiff.1 hexact).2 (by decide) (by decide)) (by decide)

theorem transfer_exact_two :
    WriteExact buildLinux (stoppedServices Files) (transferCall [5, 6] 2) openedFile [5, 6] ∧
      ReadExact (scRead buildLinux (stoppedServices Files).withFiles) (transferCall [5, 6] 2) 0
        (some [1, 2]) := by
  obtain ⟨stream', k', hr⟩ := readReturns_openedFile 2
  obtain ⟨hwrite, hread⟩ := (transfer_exact_iff buildLinux (stoppedServices Files)
    (s := transferCall [5, 6] 2) openedFiles_reachable (mapped_onePage _ _ _ _)
    (userHolds_onePage 0 2 2 (by decide)) (show (2 : Word).toNat = 2 from rfl) (by decide) rfl
    (show openedFiles.getStream (2 : Word).toInt = some (.file openedFile) from rfl)).1
    ⟨rfl, rfl, rfl⟩
  refine ⟨(hwrite openedFile rfl rfl).2 (by decide), (hread _ _ _ hr).2 ⟨?_, fun _ h => ?_⟩⟩
  · exact standsBehindZero_of_not_mem (by decide)
  · exact absurd h (by decide)

end Nachos
