import Nachos.Threads.PTable

/-!
# What a step of the process table does

`step_takes` says once what a step of the system can be, and `run_does` what the code at a place does:
a `P` (`Enters`), a `V` with nothing before it (`Releases`), or one of the sections that change the
table, the PCBs or the frames (`Does`). What a step keeps is a case analysis over these.
-/

namespace Nachos.PTable

open Base

namespace State

inductive Enters (s : State) (t : Tid) : Place → Sem → Place → Prop
  | loading {n : Nat} : Enters s t (.loading (n + 1)) .addrLock (.copying n)
  | found {filename : Name} {argv : List Name} {i : Int} :
      Enters s t (.exec filename argv (.found i)) .bmsem (.exec filename argv (.creating i))
  | created {filename : Name} {argv : List Name} {q p : Tid} {i : Nat} :
      s.pcb (s.threads t).id = .obj q →
      Enters s t (.exec filename argv (.created p i)) (.multex q)
        (.exec filename argv (.incNumWait q p i))
  | incNumWait {filename : Name} {argv : List Name} {q p : Tid} {i : Nat} :
      (s.pcbs q).numwait = 0 →
      Enters s t (.exec filename argv (.incNumWait q p i)) (.shouldExit q)
        (.exec filename argv (.firstChild q p i))
  | counted {filename : Name} {argv : List Name} {p : Tid} {i : Nat} :
      Enters s t (.exec filename argv (.counted p i)) (.multex p) (.exec filename argv (.opening p i))
  | opening {filename : Name} {argv : List Name} {p : Tid} {i : Nat} {executable : OpenFile}
      {noffH : NoffHeader} :
      s.files filename = some executable → readHeader buildLinux s.junk executable = .ok noffH →
      Enters s t (.exec filename argv (.opening p i)) .addrLock
        (.exec filename argv (.allocating p i executable noffH))
  | joinWait {pID : Int} {child : Entry} {q : Tid} :
      s.entry pID = .obj q →
      Enters s t (.join pID child (.checked true)) (.joinsem q) (.join pID child (.joined q))
  | lockParent {c parentID : Int} {cur par : Tid} :
      parentID ≠ -1 → s.pcb parentID.toNat = .obj par →
      Enters s t (.exit c (.exitReleased cur parentID)) (.multex par) (.exit c (.decNumWait cur par))
  | exitWait {c : Int} {cur par : Tid} :
      Enters s t (.exit c (.counted cur par)) (.exitsem par) (.exit c (.accepted cur par))
  | leaveMain {c : Int} {cur : Tid} :
      (s.threads t).id ≠ 0 →
      Enters s t (.exit c (.exitReleased cur (-1))) (.shouldExit cur) (.exit c .exited)
  | leave {c : Int} {cur : Tid} :
      (s.threads t).id ≠ 0 →
      Enters s t (.exit c (.waited cur)) (.shouldExit cur) (.exit c .exited)
  | exited {c : Int} : Enters s t (.exit c .exited) .bmsem (.exit c .removing)

inductive Releases (s : State) (t : Tid) : Place → Sem → Place → Prop
  | copying {n : Nat} : Releases s t (.copying n) .addrLock (.loading n)
  | joinChecking {pID : Int} {child : Entry} :
      Releases s t (.join pID child .checking) .bmsem (.join pID child (.checked (s.isExist pID)))
  | checking {c : Int} :
      Releases s t (.exit c .checking) .bmsem (.exit c (.checked (s.isExist (s.threads t).id)))
  | joinReleased {c parentID : Int} {cur : Tid} :
      Releases s t (.exit c (.joinReleased cur parentID)) (.exitsem cur)
        (.exit c (.exitReleased cur parentID))
  | lastChild {c : Int} {cur par : Tid} :
      Releases s t (.exit c (.lastChild cur par)) (.multex par) (.exit c (.counted cur par))
  | accepted {c : Int} {cur par : Tid} :
      Releases s t (.exit c (.accepted cur par)) (.exitsem par) (.exit c (.waited cur))

inductive Counting (s : State) (q p : Tid) (i : Nat) : ExecPc → Prop
  | more : (s.pcbs q).numwait ≠ 0 → Counting s q p i (.incNumWait q p i)
  | first : Counting s q p i (.firstChild q p i)

inductive Settling (s : State) (cur par : Tid) : Sem → ExitPc → Prop
  | last : (s.pcbs par).numwait + -1 = 0 → Settling s cur par (.shouldExit par) (.lastChild cur par)
  | more : (s.pcbs par).numwait + -1 ≠ 0 → Settling s cur par (.multex par) (.counted cur par)

inductive Does (s : State) (t : Tid) : Place → State → Prop
  | stop {pl : Place} {reason : StopReason} : pl ≠ .user → Does s t pl (s.stop reason)
  | p {pl pl' : Place} {sem : Sem} : s.Enters t pl sem pl' → Does s t pl (s.p t sem pl')
  | v {pl pl' : Place} {sem : Sem} : s.Releases t pl sem pl' → Does s t pl (s.v t sem pl')
  | loaded : Does s t (.loading 0) (s.goto t .user)
  | find {filename : Name} {argv : List Name} {i : Int} {bm : Bitmap} :
      s.bm.findAndSet = .ok (i, bm) →
      Does s t (.exec filename argv .finding) ({ s with bm }.v t .bmsem (.exec filename argv (.found i)))
  | refuse {filename : Name} {argv : List Name} :
      Does s t (.exec filename argv (.creating (-1))) ((s.v t .bmsem .user).writeResult t (-1))
  | create {filename : Name} {argv : List Name} {i : Int} :
      i ≠ -1 → argv.length ≤ maxArgNum →
      Does s t (.exec filename argv (.creating i))
        ((s.newPCB t i.toNat argv).v t .bmsem (.exec filename argv (.created s.next i.toNat)))
  | count {filename : Name} {argv : List Name} {pc : ExecPc} {q p : Tid} {i : Nat} :
      s.Counting q p i pc →
      Does s t (.exec filename argv pc)
        ((s.addNumwait q 1).v t (.multex q) (.exec filename argv (.counted p i)))
  | allocate {filename : Name} {argv : List Name} {p : Tid} {i : Nat} {executable : OpenFile}
      {noffH : NoffHeader} {pageTable : List TranslationEntry} {gPhysPageBitMap : Bitmap} :
      AddrSpace.allocPages s.gPhysPageBitMap 0 (AddrSpace.pagesFor noffH) =
        .ok (pageTable, gPhysPageBitMap) →
      Does s t (.exec filename argv (.allocating p i executable noffH))
        ({ s with gPhysPageBitMap }.v t .addrLock
          (.exec filename argv (.forking p i ⟨executable, pageTable⟩ noffH)))
  | fork {filename : Name} {argv : List Name} {p : Tid} {i : Nat} {space : AddrSpace}
      {noffH : NoffHeader} :
      filename.length + 1 ≤ 32 →
      Does s t (.exec filename argv (.forking p i space noffH))
        ((s.fork p i space noffH).goto t (.exec filename argv (.forked p i)))
  | forked {filename : Name} {argv : List Name} {p : Tid} {i : Nat} :
      Does s t (.exec filename argv (.forked p i)) ((s.v t (.multex p) .user).writeResult t i)
  | joined {pID : Int} {child : Entry} {q : Tid} :
      Does s t (.join pID child (.joined q))
        (((s.use (some q)).goto t .user).writeResult t (s.pcbs q).exitcode)
  | release {c : Int} {cur : Tid} :
      s.pcb (s.threads t).id = .obj cur →
      Does s t (.exit c (.checked true))
        ((s.setExitCode cur c).v t (.joinsem cur) (.exit c (.joinReleased cur (s.pcbs cur).parentID)))
  | settle {c : Int} {cur par : Tid} {sem : Sem} {pc : ExitPc} :
      s.Settling cur par sem pc →
      Does s t (.exit c (.decNumWait cur par)) ((s.addNumwait par (-1)).v t sem (.exit c pc))
  | remove {c : Int} {cur : Tid} {bm : Bitmap} :
      s.bm.clear (s.threads t).id = .ok bm → s.pcb (s.threads t).id = .obj cur →
      Does s t (.exit c .removing)
        (({ s with bm, pcb := Function.update s.pcb (s.threads t).id .null }.setPCB cur fun pcb =>
          { pcb with deleted := true }).v t .bmsem (.exit c .removed))
  | removed {c : Int} :
      Does s t (.exit c .removed) { s.goto t (.finished c) with toBeDestroyed := some t }

variable {s s' : State} {t : Tid}

theorem execStep_does (filename : Name) (argv : List Name) (pc : ExecPc) :
    s.Does t (.exec filename argv pc) (s.execStep t filename argv pc) := by
  cases pc with
  | finding =>
    rw [execStep, getFreeSlot]
    split
    · exact .stop nofun
    · exact .find ‹_›
  | found => exact .p .found
  | creating i =>
    rw [execStep, create]
    split
    · subst i
      exact .refuse
    · split
      · exact .stop nofun
      · exact .create ‹_› (Nat.le_of_not_lt ‹_›)
  | created p i =>
    rw [execStep]
    unfold lockParent
    split
    · exact .p (.created ‹_›)
    · exact .stop nofun
    · exact .stop nofun
  | incNumWait q p i =>
    rw [execStep]
    split
    · exact .p (.incNumWait ‹_›)
    · exact .count (.more ‹_›)
  | firstChild => exact .count .first
  | counted => exact .p .counted
  | opening =>
    rw [execStep, openExecutable]
    split
    · exact .stop nofun
    · split
      · exact .stop nofun
      · exact .p (.opening ‹_› ‹_›)
  | allocating =>
    rw [execStep]
    unfold allocate
    split
    · exact .stop nofun
    · exact .allocate ‹_›
  | forking =>
    rw [execStep]
    split
    · exact .fork ‹_›
    · exact .stop nofun
  | forked => exact .forked

theorem joinStep_does (pID : Int) (child : Entry) (pc : JoinPc) :
    s.Does t (.join pID child pc) (s.joinStep t pID child pc) := by
  cases pc with
  | checking => exact .v .joinChecking
  | checked exist =>
    rw [joinStep]
    split
    · subst exist
      unfold joinWait
      split
      · exact .stop nofun
      · exact .stop nofun
      · exact .p (.joinWait ‹_›)
    · exact .stop nofun
  | joined => exact .joined

theorem exitStep_does (c : Int) (pc : ExitPc) : s.Does t (.exit c pc) (s.exitStep t c pc) := by
  cases pc with
  | checking => exact .v .checking
  | checked exist =>
    rw [exitStep]
    split
    · subst exist
      unfold joinRelease
      split
      · exact .stop nofun
      · exact .stop nofun
      · exact .release ‹_›
    · exact .stop nofun
  | joinReleased => exact .v .joinReleased
  | exitReleased cur parentID =>
    rw [exitStep]
    split
    · subst parentID
      unfold leave
      split
      · exact .stop nofun
      · exact .p (.leaveMain ‹_›)
    · unfold lockParent
      split
      · exact .p (.lockParent ‹_› ‹_›)
      · exact .stop nofun
      · exact .stop nofun
  | decNumWait =>
    rw [exitStep]
    split
    · exact .settle (.last ‹_›)
    · exact .settle (.more ‹_›)
  | lastChild => exact .v .lastChild
  | counted => exact .p .exitWait
  | accepted => exact .v .accepted
  | waited =>
    rw [exitStep, leave]
    split
    · exact .stop nofun
    · exact .p (.leave ‹_›)
  | exited => exact .p .exited
  | removing =>
    rw [exitStep, remove]
    split
    · exact .stop nofun
    · exact .stop nofun
    · exact .stop nofun
    · exact .remove ‹_› ‹_›
  | removed => exact .removed

theorem run_does {pl : Place} (hs : s.run t pl = some s') : s.Does t pl s' := by
  cases pl with
  | unborn | user | finished => cases hs
  | loading n =>
    cases n with
    | zero =>
      cases hs
      exact .loaded
    | succ =>
      cases hs
      exact .p .loading
  | copying =>
    cases hs
    exact .v .copying
  | exec =>
    cases hs
    exact execStep_does ..
  | join =>
    cases hs
    exact joinStep_does ..
  | exit =>
    cases hs
    exact exitStep_does ..

inductive Begins (s : State) : Call → Place → Prop
  | exec {filename : Name} : Begins s (.exec filename) (.exec filename [] .finding)
  | execV {filename : Name} {argv : List Name} :
      Begins s (.execV (filename :: argv)) (.exec filename (filename :: argv) .finding)
  | join {pID : Int} : Begins s (.join pID) (.join pID (s.entry pID) .checking)
  | exit {c : Int} : Begins s (.exit c) (.exit c .checking)

end State

inductive Takes (s : State) : Choice → State → Prop
  | call {t : Tid} {c : Call} {pl : Place} :
      (s.threads t).place = .user → s.Begins c pl → Takes s (.call t c) (s.enter t .bmsem pl)
  | refuse {t : Tid} :
      (s.threads t).place = .user → Takes s (.call t (.execV [])) (s.stop (.fault .assertion))
  | round {t : Tid} {sem : Sem} :
      (s.threads t).waiting = some sem → t ∉ (s.sems sem).queue → Takes s (.go t) (s.round t sem)
  | run {t : Tid} {s' : State} :
      (s.threads t).waiting = none → s.Does t (s.threads t).place s' → Takes s (.go t) s'
  | destroy {t : Tid} (gPhysPageBitMap : Bitmap) :
      s.toBeDestroyed = some t →
      Takes s .destroy { s with gPhysPageBitMap, toBeDestroyed := none }
  | destroyFails {f : Fault} : Takes s .destroy (s.stop (.fault f))
  | outside (files : Name → Option OpenFile) (junk : Memory) :
      Takes s (.outside files junk) { s with files, junk }

variable {s s' : State}

theorem step_takes {choice : Choice} (hs : step s choice = some s') : Takes s choice s' := by
  unfold step at hs
  split at hs
  · cases hs
  · split at hs
    · rename_i t ht
      unfold State.destroy at hs
      split at hs
      · cases hs
      · split at hs
        · cases hs
          exact .destroy s.gPhysPageBitMap ht
        · split at hs
          · cases hs
            exact .destroyFails
          · cases hs
            exact .destroy _ ht
    · unfold State.call at hs
      split at hs
      · rename_i hpl
        split at hs
        · cases hs
          exact .call hpl .exec
        · cases hs
          exact .refuse hpl
        · cases hs
          exact .call hpl .execV
        · cases hs
          exact .call hpl .join
        · cases hs
          exact .call hpl .exit
      · cases hs
    · unfold State.go at hs
      split at hs
      · rename_i hw
        split at hs
        · cases hs
        · rename_i hq
          cases hs
          exact .round hw hq
      · rename_i hw
        exact .run hw (State.run_does hs)
    · cases hs
      exact .outside ..
    · cases hs

end Nachos.PTable
