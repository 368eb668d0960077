import G29Os.ArgumentTransfer
import G29Os.DescriptorTable
import G29Os.Volumes

/-!
The kernel answers the calls of a session as its volume says, whatever keys are pressed and the
clock does while the program's terminal stays in front.
-/

namespace G29Os

open CallTree StepRun

def SysCall.event (buf : Nat) (behind : Nat → UInt8) : SysCall → Event
  | .getargs nbytes => .getargs buf nbytes behind
  | .open filename => .open filename
  | .read fd nbytes => .read fd buf nbytes
  | .write fd bytes => .write fd bytes
  | .close fd => .close fd

structure Watched where
  kernel : Kernel
  printed : List UInt8

namespace Kernel

/-- A call with the buffer `buf`; one that has not come back has no reply. -/
def call (image : Image) (process : Slot) (buf : Nat) (behind : Nat → UInt8) (k : Kernel) :
    SysCall → Option (Reply × Kernel)
  | .getargs nbytes => (k.systemGetargs process buf nbytes behind).map fun result =>
      (⟨result.1, argumentBytes (k.pcbs process) behind nbytes⟩, result.2)
  | .open filename => (k.openCall image process filename).map fun result => (⟨result.1, []⟩, result.2)
  | .read fd nbytes => (k.readCall image process fd buf nbytes).bind fun result =>
      result.1.map fun ret =>
        (⟨ret, ((k.fileReadOf image process fd nbytes).map FsRead.bytes).getD []⟩, result.2)
  | .write fd bytes => (k.systemWrite process fd bytes).map fun result => (⟨result.1, []⟩, result.2)
  | .close fd => (k.systemClose process fd).map fun result => (⟨result.1, []⟩, result.2)

def output (process : Slot) (k : Kernel) : SysCall → List UInt8
  | .write fd bytes =>
      if ((k.pcbs process).fileArray.inUse 1 fd).any fun index =>
          decide ((k.descriptor process index).fopsPtr = some .terminal) then bytes
      else []
  | _ => []

variable {image : Image} {k next : Kernel} {process : Slot} {buf : Nat} {behind : Nat → UInt8}

theorem running_of (idle : k.readers k.current = none) (front : k.foreground = some process) :
    k.running = some process := by
  rw [running, idle]
  exact front

theorem call_step {request : SysCall} {reply : Reply} (running : k.running = some process)
    (done : k.call image process buf behind request = some (reply, next)) :
    k.step image (request.event buf behind) = some next := by
  cases request with
  | getargs nbytes =>
      obtain ⟨result, taken, same⟩ := Option.map_eq_some_iff.mp done
      cases same
      simp only [step, SysCall.event, running, Option.bind_some, programEvent, taken, Option.map_some]
  | «open» filename =>
      obtain ⟨result, taken, same⟩ := Option.map_eq_some_iff.mp done
      cases same
      simp only [step, SysCall.event, running, Option.bind_some, programEvent, taken, Option.map_some]
  | read fd nbytes =>
      obtain ⟨result, taken, returned⟩ := Option.bind_eq_some_iff.mp done
      obtain ⟨ret, -, same⟩ := Option.map_eq_some_iff.mp returned
      cases same
      simp only [step, SysCall.event, running, Option.bind_some, programEvent, taken, Option.map_some]
  | write fd bytes =>
      obtain ⟨result, taken, same⟩ := Option.map_eq_some_iff.mp done
      cases same
      simp only [step, SysCall.event, running, Option.bind_some, programEvent, taken, Option.map_some]
  | close fd =>
      obtain ⟨result, taken, same⟩ := Option.map_eq_some_iff.mp done
      cases same
      simp only [step, SysCall.event, running, Option.bind_some, programEvent, taken, Option.map_some]

/-! ### Steps that are not the program's -/

/-- Keys that leave the program's terminal in front, and the clock. A program that is switched away
and brought back goes on with other registers. -/
def Aside (k : Kernel) : Event → Prop
  | .key code .. => (k.tty.afterKey code).currTerminal = k.current
  | .rtcTick => True
  | _ => False

structure Kept (process : Slot) (k next : Kernel) : Prop where
  live : next.pcbTrack process = true
  pcb : next.pcbs process = k.pcbs process
  owner : next.fsPcb = k.fsPcb

variable {caller : Slot}

theorem Quiet.kept (quiet : Quiet k next) (live : k.pcbTrack process = true) : Kept process k next := by
  have pcbTrack : next.pcbTrack = k.pcbTrack := congrArg ProcessTable.pcbTrack quiet.table
  exact ⟨pcbTrack ▸ live, by rw [quiet.pcbs], quiet.fs⟩

theorem Ended.kept {resumed : Option Slot} (ended : Ended k next caller resumed) (sound : Sound k)
    (apart : process ≠ caller) (live : k.pcbTrack process = true) : Kept process k next := by
  have left : Undisturbed process 0 k next := ended.undisturbed sound apart live
  exact ⟨left.live, ended.others process apart, ended.fs⟩

theorem Switched.kept {target : TerminalId} (switched : Switched k next target)
    (live : k.pcbTrack process = true) : Kept process k next :=
  ⟨switched.table_eq.2.2 ▸ live, by rw [switched.pcbs], switched.fs⟩

theorem step_kept {event : Event} (live : k.pcbTrack process = true) (aside : k.Aside event)
    (done : k.step image event = some next) : Kept process k next := by
  cases event with
  | key code regs stale =>
      rcases keyEvent_effect done with quiet | ⟨target, switched, -⟩
      · exact quiet.kept live
      · exact switched.kept live
  | rtcTick =>
      cases done
      exact ⟨live, rfl, rfl⟩
  | _ => cases aside

end Kernel

/-! ### Sessions -/

variable {image : Image} {formatted : image.Formatted} {process : Slot}

theorem Dentry.Contained.mono {dentry : Dentry} {room more : Nat} (contained : dentry.Contained room)
    (fits : room ≤ more) : dentry.Contained more := by
  obtain ⟨k, bound, low, ends⟩ := contained
  exact ⟨k, by omega, low, ends⟩

namespace Image.Formatted

variable {k : Kernel} {buf : Nat} {behind : Nat → UInt8}

theorem call_open (formatted : image.Formatted) (filename : List UInt8) :
    k.call image process buf behind (.open filename) =
      some (⟨(k.systemOpen image process filename).1, []⟩,
        (k.systemOpen image process filename).2) := by
  have contained : Kernel.openContained image filename := by
    intro _ dentry found
    obtain ⟨slot, listed, rfl⟩ := List.mem_map.mp (List.mem_of_find?_eq_some found)
    exact (formatted.contained slot (List.mem_range.mp listed)).mono (Nat.zero_le _)
  rw [Kernel.call, Kernel.openCall_contained contained]
  rfl

theorem readDirContained (formatted : image.Formatted) (position : UInt32) :
    readDirContained image position := by
  intro before entry found
  rw [Image.readDentryByIndex] at found
  split at found
  · cases found
  · cases found
    have used : position.toNat < image.entryCount := UInt32.lt_iff_toNat_lt.mp before
    have contained := formatted.contained position.toNat (Nat.lt_of_lt_of_le used formatted.named.fits)
    rw [Image.slotEntry, UInt32.ofNat_toNat] at contained
    exact contained.mono (Nat.zero_le _)

theorem call_read (formatted : image.Formatted) (fd nbytes : Int) :
    k.call image process buf behind (.read fd nbytes) =
      (k.systemRead image process fd buf nbytes).bind fun result => result.1.map fun ret =>
        (⟨ret, ((k.fileReadOf image process fd nbytes).map FsRead.bytes).getD []⟩, result.2) := by
  have contained : k.readContained image process fd :=
    fun entry _ _ => formatted.readDirContained entry.filePosition
  rw [Kernel.call, Kernel.readCall, if_pos contained]

end Image.Formatted

inductive Shown (formatted : image.Formatted) : Fd → Option Handle → Prop
  | closed {entry : Fd} (unused : entry.flags = false) : Shown formatted entry none
  | clock {entry : Fd} (used : entry.flags = true) (clock : entry.fopsPtr = some .rtc) :
      Shown formatted entry (some .clock)
  | listing {count : Nat} (inside : count ≤ image.entryCount) :
      Shown formatted (directoryFd (UInt32.ofNat count))
        (some (.listing ((Image.volume formatted).names.drop count)))
  | text {inode position : UInt32} (supplied : image.Supplied inode)
      (within : position.toNat ≤ image.length inode) :
      Shown formatted (fileEntry image inode position)
        (some (.text ((image.content inode).drop position.toNat)))

def Handle.OnDisk : Handle → Prop
  | .clock => False
  | _ => True

structure Matches (formatted : image.Formatted) (process : Slot) (k : Kernel) (session : Session) :
    Prop where
  live : k.pcbTrack process = true
  args : IsCString (k.pcbs process).args session.args
  short : session.args.length < lineBuffer
  handles : ∀ fd : Fin 8, fdBegin ≤ fd.val → Shown formatted (k.descriptor process fd) (session.handles fd)
  owner : ∀ (fd : Fin 8) handle, session.handles fd = some handle → handle.OnDisk → k.fsPcb = some process

structure Offers (formatted : image.Formatted) (process : Slot) (state : Watched) (session : Session) :
    Prop extends Matches formatted process state.kernel session where
  reached : Reachable (Kernel.step image) (Kernel.Booted image) state.kernel
  printed : state.printed = session.printed

def Others (image : Image) (state next : Watched) : Prop :=
  next.printed = state.printed ∧
    ∃ event, state.kernel.Aside event ∧ state.kernel.step image event = some next.kernel

structure Calls (image : Image) (process : Slot) (state : Watched) (request : SysCall) (reply : Reply)
    (next : Watched) : Prop where
  running : state.kernel.running = some process
  done : ∃ buf behind, mb128 ≤ buf ∧
    state.kernel.call image process buf behind request = some (reply, next.kernel)
  printed : next.printed = state.printed ++ state.kernel.output process request

def Watched.Running (process : Slot) (state : Watched) : Prop := state.kernel.running = some process

namespace Matches

variable {k next : Kernel} {session : Session}

theorem kept (matched : Matches formatted process k session) (kept : Kernel.Kept process k next) :
    Matches formatted process next session where
  live := kept.live
  args := by
    rw [kept.pcb]
    exact matched.args
  short := matched.short
  handles fd above := by
    rw [Kernel.descriptor, kept.pcb]
    exact matched.handles fd above
  owner fd handle held disk := by
    rw [kept.owner]
    exact matched.owner fd handle held disk

theorem same (matched : Matches formatted process k session) (pcbTrack : next.pcbTrack = k.pcbTrack)
    (pcbs : next.pcbs = k.pcbs) (owner : next.fsPcb = k.fsPcb) : Matches formatted process next session :=
  matched.kept ⟨pcbTrack ▸ matched.live, by rw [pcbs], owner⟩

theorem put (matched : Matches formatted process k session) {fd : Fin 8} {entry : Fd}
    {handle : Option Handle} (pcbTrack : next.pcbTrack = k.pcbTrack)
    (pcbs : next.pcbs = (k.setFiles process ((k.pcbs process).fileArray.set fd entry)).pcbs)
    (owner : next.fsPcb = k.fsPcb ∨ next.fsPcb = some process) (shown : Shown formatted entry handle)
    (own : ∀ held, handle = some held → held.OnDisk → next.fsPcb = some process) :
    Matches formatted process next (session.put fd handle) := by
  have pcb : next.pcbs process =
      { k.pcbs process with fileArray := (k.pcbs process).fileArray.set fd entry } := by
    rw [pcbs]
    exact Function.update_self ..
  constructor
  · exact pcbTrack ▸ matched.live
  · rw [pcb]
    exact matched.args
  · exact matched.short
  · intro other above
    rw [Kernel.descriptor, pcb]
    rcases eq_or_ne other fd with rfl | apart
    · simpa [Session.put, FileArray.set_self] using shown
    · simpa [Session.put, FileArray.set_other apart, apart, Kernel.descriptor] using
        matched.handles other above
  · intro other held is disk
    rcases eq_or_ne other fd with rfl | apart
    · exact own held (by simpa [Session.put] using is) disk
    · rcases owner with unmoved | mine
      · rw [unmoved]
        exact matched.owner other held (by simpa [Session.put, apart] using is) disk
      · exact mine

theorem unused (matched : Matches formatted process k session) {fd : Fin 8} (above : fdBegin ≤ fd.val) :
    (k.descriptor process fd).flags = (session.handles fd).isSome := by
  have shown := matched.handles fd above
  generalize k.descriptor process fd = entry at shown
  generalize session.handles fd = handle at shown
  cases shown with
  | closed unused => exact unused
  | clock used => exact used
  | listing => rfl
  | text => rfl

theorem firstFree (matched : Matches formatted process k session) :
    (k.pcbs process).fileArray.firstFree = session.firstFree := by
  rw [FileArray.firstFree, Session.firstFree]
  congr 1
  funext fd
  by_cases above : fdBegin ≤ fd.val
  · have flags : ((k.pcbs process).fileArray fd).flags = (session.handles fd).isSome := matched.unused above
    rw [flags]
    simp
  · simp [above]

theorem inUse (matched : Matches formatted process k session) (first : Nat) {fd : Int}
    (low : first ≤ fdBegin) (above : (fdBegin : Int) ≤ fd) :
    (k.pcbs process).fileArray.inUse first fd = (session.opened fd).map Prod.fst := by
  rw [FileArray.inUse, Session.opened]
  by_cases bound : fd ≤ 7
  · have inside : (first : Int) ≤ fd ∧ fd ≤ 7 := by omega
    have inside' : (fdBegin : Int) ≤ fd ∧ fd ≤ 7 := ⟨above, bound⟩
    rw [dif_pos inside, dif_pos inside']
    let index : Fin 8 := ⟨fd.toNat, by omega⟩
    have low : fdBegin ≤ index.val := by
      simp only [index]
      omega
    have flags : ((k.pcbs process).fileArray index).flags = (session.handles index).isSome :=
      matched.unused low
    change (if ((k.pcbs process).fileArray index).flags = true then some index else none) =
      ((session.handles index).map fun handle => (index, handle)).map Prod.fst
    rw [flags]
    cases session.handles index <;> rfl
  · rw [dif_neg (by omega), dif_neg (by omega)]
    rfl

end Matches

theorem Session.opened_some {session : Session} {fd : Int} {index : Fin 8} {handle : Handle}
    (found : session.opened fd = some (index, handle)) :
    fd = index.val ∧ fdBegin ≤ index.val ∧ session.handles index = some handle := by
  rw [Session.opened] at found
  split at found
  · rename_i bound
    obtain ⟨held, is, same⟩ := Option.map_eq_some_iff.mp found
    cases same
    refine ⟨?_, ?_, is⟩
    · simp only
      omega
    · simp only
      omega
  · cases found

theorem Session.put_same {session : Session} {fd : Fin 8} : session.put fd (session.handles fd) = session := by
  rw [Session.put, Function.update_eq_self]

theorem Session.opened_low {session : Session} {fd : Int} (low : fd < fdBegin) : session.opened fd = none := by
  rw [Session.opened, dif_neg (by omega)]

/-! ### Each call -/

structure Performs (formatted : image.Formatted) (process : Slot) (k : Kernel) (session : Session)
    (buf : Nat) (behind : Nat → UInt8) (request : SysCall) (promised : Reply) (later : Session)
    (bytes : List UInt8) (change : Kernel → Kernel) : Prop where
  call : k.call image process buf behind request =
    (k.storeBytes buf bytes).map fun stored => (⟨promised.ret, bytes⟩, change stored)
  promise : promised.bytes <+: bytes
  exact_ : (∀ nbytes, request ≠ .getargs nbytes) → bytes = promised.bytes
  fits : bytes.length ≤ mb4
  matched : ∀ mem, Matches formatted process (change { k with mem := mem }) later
  running : ∀ mem, (change { k with mem := mem }).running = k.running
  memory : ∀ mem, (change { k with mem := mem }).mem = mem
  printed : later.printed = session.printed ++ k.output process request

namespace Matches

variable {k : Kernel} {session later : Session} {buf : Nat} {behind : Nat → UInt8} {promised : Reply}

theorem stored (matched : Matches formatted process k session) (mem : Nat → UInt8) :
    Matches formatted process { k with mem := mem } session := matched.same rfl rfl rfl

theorem changed {request : SysCall} {ret : Int} (change : Kernel → Kernel)
    (call : k.call image process buf behind request = some (⟨ret, []⟩, change k))
    (matched : ∀ mem, Matches formatted process (change { k with mem := mem }) later)
    (running : ∀ mem, (change { k with mem := mem }).running = k.running)
    (memory : ∀ mem, (change { k with mem := mem }).mem = mem)
    (printed : later.printed = session.printed ++ k.output process request) :
    Performs formatted process k session buf behind request ⟨ret, []⟩ later [] change where
  call := call
  promise := List.prefix_rfl
  exact_ _ := rfl
  fits := Nat.zero_le _
  matched := matched
  running := running
  memory := memory
  printed := printed

theorem refused (matched : Matches formatted process k session) {request : SysCall} {ret : Int}
    (call : k.call image process buf behind request = some (⟨ret, []⟩, k))
    (silent : k.output process request = []) :
    Performs formatted process k session buf behind request ⟨ret, []⟩ session [] id :=
  changed id call matched.stored (fun _ => rfl) (fun _ => rfl) (by rw [silent, List.append_nil])

theorem argumentBytes_prefix {pcb : Pcb} {args : List UInt8} {nbytes : Int}
    {behind : Nat → UInt8} (string : IsCString pcb.args args) (short : args.length < lineBuffer)
    (room : (args.length : Int) < nbytes) : args ++ [0] <+: Kernel.argumentBytes pcb behind nbytes := by
  have copied : ((List.range nbytes.toNat).map fun j => if j < lineBuffer then pcb.args j else behind j).take
      (args.length + 1) = args ++ [0] := by
    apply List.ext_getElem
    · simp
      omega
    · intro j inside inside'
      rw [List.length_append, List.length_singleton] at inside'
      have within : j < lineBuffer := by omega
      rw [List.getElem_take, List.getElem_map, List.getElem_range, if_pos within]
      rcases Nat.lt_or_eq_of_le (Nat.lt_succ_iff.mp inside') with before | rfl
      · rw [List.getElem_append_left before, string.bytes j before]
      · simp [string.ends]
  rw [← copied, Kernel.argumentBytes]
  exact (List.take_prefix _ _).trans (List.prefix_append _ _)

theorem getargs (matched : Matches formatted process k session) {nbytes : Int} (low : mb128 ≤ buf)
    (answered : session.answer (Image.volume formatted) (.getargs nbytes) = some (promised, later)) :
    ∃ bytes change, Performs formatted process k session buf behind (.getargs nbytes) promised later
      bytes change := by
  rw [Session.answer] at answered
  split at answered
  · rename_i room
    cases answered
    have notNull : buf ≠ 0 := by
      rintro rfl
      exact absurd low (by decide)
    have count : Kernel.ByteCount nbytes := by
      simp only [Kernel.ByteCount, reach] at room ⊢
      omega
    have copied := @Kernel.systemGetargs_eq k process buf nbytes (k.pcbs process) behind notNull count
    have same : k.setPcb process (k.pcbs process) = k := by
      rw [Kernel.setPcb, Function.update_eq_self]
    rw [same] at copied
    refine ⟨Kernel.argumentBytes (k.pcbs process) behind nbytes, id, ?_, ?_, ?_, ?_, ?_, ?_, ?_, ?_⟩
    · rw [Kernel.call, copied, Option.map_map]
      rfl
    · exact argumentBytes_prefix matched.args matched.short room.1
    · exact fun other => absurd rfl (other nbytes)
    · simp only [reach] at room
      simp [Kernel.argumentBytes, mb4]
      omega
    · exact matched.stored
    · exact fun mem => rfl
    · exact fun mem => rfl
    · exact (List.append_nil _).symm
  · cases answered

theorem lookup_nil : (Image.volume formatted).lookup [] = none := by
  rw [Volume.lookup, Option.map_eq_none_iff, List.find?_eq_none]
  intro entry _
  have named := entry.named
  cases name : entry.name with
  | nil => exact absurd name named
  | cons c rest => simp [nameSize]

theorem openFile (matched : Matches formatted process k session) {filename : List UInt8}
    (unopened : k.rtc.rtcOpenFlag = false)
    (answered : session.answer (Image.volume formatted) (.open filename) = some (promised, later)) :
    ∃ bytes change, Performs formatted process k session buf behind (.open filename) promised later
      bytes change := by
  rw [Session.answer] at answered
  split at answered
  · cases answered
  · rename_i nonzero
    have result := Option.some.inj answered
    have failed (ret : k.systemOpen image process filename = (-1, k)) :
        Performs formatted process k session buf behind (.open filename) ⟨-1, []⟩ session [] id :=
      matched.refused (by rw [formatted.call_open, ret]) rfl
    by_cases named : filename = []
    · subst named
      rw [Session.openFile, lookup_nil] at result
      cases result
      exact ⟨[], id, failed (if_pos rfl)⟩
    · have characters : ∀ c ∈ filename, c ≠ 0 := fun c listed zero => nonzero (zero ▸ listed)
      have first : ¬textOf filename 0 = 0 := by
        cases filename with
        | nil => exact absurd rfl named
        | cons c rest => exact characters c List.mem_cons_self
      obtain ⟨agree, listed⟩ := Image.readDentryByName_volume formatted named characters
      rw [Session.openFile, ← agree, ← matched.firstFree] at result
      have begins : k.systemOpen image process filename = k.systemOpen image process filename := rfl
      conv at begins => rhs; rw [Kernel.systemOpen, if_neg first]
      cases found : image.readDentryByName (textOf filename) with
      | none =>
          simp only [found, Option.map_none] at result begins
          cases result
          exact ⟨[], id, failed begins⟩
      | some dentry =>
          cases free : (k.pcbs process).fileArray.firstFree with
          | none =>
              simp only [found, free, Option.map_some] at result begins
              cases result
              exact ⟨[], id, failed begins⟩
          | some fd =>
              obtain ⟨slot, used, rfl⟩ := listed dentry found
              simp only [found, free, Option.map_some] at result begins
              cases result
              have above := FileArray.firstFree_bound free
              rcases formatted.known slot used with clock | directory | regular
              · have node : image.dentryNode (image.slotEntry slot) = .rtc := if_pos clock
                let entry : Fd := { k.descriptor process fd with
                  fopsPtr := some .rtc, inodePtr := 0, flags := true }
                refine ⟨[], fun k => k.setFiles process ((k.pcbs process).fileArray.set fd entry),
                  changed _ ?_ (fun mem => ?_) (fun _ => rfl) (fun _ => rfl) (List.append_nil _).symm⟩
                · rw [formatted.call_open, begins, if_pos clock, Kernel.openRtc, rtcOpen, unopened]
                  rfl
                · refine (matched.stored mem).put rfl rfl (Or.inl rfl) ?_ ?_
                  · rw [node]
                    exact Shown.clock rfl rfl
                  · rw [node]
                    rintro _ ⟨⟩ disk
                    exact absurd disk id
              · have other : ¬(image.slotEntry slot).type = 0 := by
                  rw [directory]
                  decide
                have node : image.dentryNode (image.slotEntry slot) = .directory := by
                  rw [Image.dentryNode, if_neg other, if_pos directory]
                refine ⟨[], fun k => k.openAs process fd .file 0,
                  changed _ ?_ (fun mem => ?_) (fun _ => rfl) (fun _ => rfl) (List.append_nil _).symm⟩
                · rw [formatted.call_open, begins, if_neg other, if_pos directory]
                · refine (matched.stored mem).put rfl rfl (Or.inr rfl) ?_ fun _ _ _ => rfl
                  rw [node]
                  exact Shown.listing (Nat.zero_le _)
              · have other : ¬(image.slotEntry slot).type = 0 := by
                  rw [regular]
                  decide
                have other' : ¬(image.slotEntry slot).type = 1 := by
                  rw [regular]
                  decide
                have node : image.dentryNode (image.slotEntry slot) =
                    .regular (image.content (image.slotEntry slot).inode) := by
                  rw [Image.dentryNode, if_neg other, if_neg other']
                refine ⟨[], fun k => k.openAs process fd .file (image.inodePtr (image.slotEntry slot).inode),
                  changed _ ?_ (fun mem => ?_) (fun _ => rfl) (fun _ => rfl) (List.append_nil _).symm⟩
                · rw [formatted.call_open, begins, if_neg other, if_neg other', if_pos regular]
                · refine (matched.stored mem).put rfl rfl (Or.inr rfl) ?_ fun _ _ _ => rfl
                  rw [node]
                  exact @Shown.text _ _ _ 0 (formatted.files slot used regular) (Nat.zero_le _)

theorem call_file (formatted : image.Formatted) {index : Fin 8} {nbytes : Int} (live : k.pcbTrack process = true)
    (above : fdBegin ≤ index.val) (used : (k.descriptor process index).flags = true)
    (file : (k.descriptor process index).fopsPtr = some .file) (owner : k.fsPcb = some process) :
    let read := fsRead image nbytes (k.descriptor process index)
    k.call image process buf behind (.read index.val nbytes) =
      (k.storeBytes buf read.bytes).map fun stored => (⟨read.ret, read.bytes⟩,
        stored.setFiles process ((k.pcbs process).fileArray.set index read.entry)) := by
  have other : (index.val : Int) ≠ 1 := by
    simp only [fdBegin] at above
    omega
  have finds : k.fileReadOf image process index.val nbytes =
      some (fsRead image nbytes (k.descriptor process index)) :=
    Kernel.fileReadOf_eq.mpr ⟨other, index, process, FileArray.inUse_used used, file, owner, rfl⟩
  rw [formatted.call_read, Kernel.systemRead_owned ⟨live, used, file⟩ above owner, finds]
  dsimp only
  cases k.storeBytes buf (fsRead image nbytes (k.descriptor process index)).bytes <;> rfl

theorem readFile (matched : Matches formatted process k session) (buf : Nat) (behind : Nat → UInt8)
    (nbytes : Int) {index : Fin 8} {handle : Option Handle} (above : fdBegin ≤ index.val)
    (used : (k.descriptor process index).flags = true)
    (file : (k.descriptor process index).fopsPtr = some .file) (owner : k.fsPcb = some process)
    (small : (fsRead image nbytes (k.descriptor process index)).bytes.length ≤ mb4)
    (shown : Shown formatted (fsRead image nbytes (k.descriptor process index)).entry handle) :
    let read := fsRead image nbytes (k.descriptor process index)
    Performs formatted process k session buf behind (.read index.val nbytes) ⟨read.ret, read.bytes⟩
      (session.put index handle) read.bytes
      fun stored => stored.setFiles process ((k.pcbs process).fileArray.set index read.entry) where
  call := call_file formatted matched.live above used file owner
  promise := List.prefix_rfl
  exact_ _ := rfl
  fits := small
  matched mem := (matched.stored mem).put rfl rfl (Or.inl rfl) shown fun _ _ _ => owner
  running _ := rfl
  memory _ := rfl
  printed := (List.append_nil _).symm

theorem read_refused (matched : Matches formatted process k session) {fd nbytes : Int} (keyboard : ¬fd = 0)
    (found : session.opened fd = none) :
    Performs formatted process k session buf behind (.read fd nbytes) ⟨-1, []⟩ session [] id := by
  have unused : fd ≠ 1 → (k.pcbs process).fileArray.inUse 0 fd = none := by
    intro input
    by_cases above : (fdBegin : Int) ≤ fd
    · rw [matched.inUse 0 (Nat.zero_le _) above, found]
      rfl
    · rw [FileArray.inUse, dif_neg]
      simp only [fdBegin] at above
      omega
  refine matched.refused ?_ rfl
  rw [formatted.call_read, Kernel.systemRead, Kernel.fileReadOf, Kernel.readEntry]
  split
  · rfl
  · rename_i input
    rw [unused input]
    rfl

theorem read_clock (matched : Matches formatted process k session) (nbytes : Int) {index : Fin 8}
    (above : fdBegin ≤ index.val) (used : (k.descriptor process index).flags = true)
    (clock : (k.descriptor process index).fopsPtr = some .rtc) (ticked : k.rtc.rtcFlag = true) :
    Performs formatted process k session buf behind (.read index.val nbytes) ⟨0, []⟩ session []
      fun k => { k with rtc := { k.rtc with rtcFlag := false } } := by
  have notOutput : ¬(index.val : Int) = 1 := by
    simp only [fdBegin] at above
    omega
  have rtc : ((k.pcbs process).fileArray index).fopsPtr = some .rtc := clock
  refine changed _ ?_ (fun _ => matched.same rfl rfl rfl) (fun _ => rfl) (fun _ => rfl) (List.append_nil _).symm
  rw [formatted.call_read, Kernel.systemRead, if_neg notOutput, FileArray.inUse_used used,
    Kernel.fileReadOf, Kernel.readEntry, if_neg notOutput, FileArray.inUse_used used]
  simp [rtc, rtcRead, ticked]

theorem read_listing (matched : Matches formatted process k session) (nbytes : Int) {index : Fin 8} {count : Nat}
    (above : fdBegin ≤ index.val) (inside : count ≤ image.entryCount) (owner : k.fsPcb = some process)
    (is : k.descriptor process index = directoryFd (UInt32.ofNat count)) :
    ∃ change, Performs formatted process k session buf behind (.read index.val nbytes)
      ⟨(listedName image count).2, (listedName image count).1⟩
      (session.put index (some (.listing ((Image.volume formatted).names.drop (min (count + 1) image.entryCount)))))
      (listedName image count).1 change := by
  have listed := fsRead_listed formatted.named formatted.readable nbytes count
  rw [Nat.min_eq_left inside] at listed
  obtain ⟨bytes, moved⟩ := listed
  have ret : (fsRead image nbytes (directoryFd (UInt32.ofNat count))).ret =
      (listedName image count).2 := congrArg Prod.snd bytes
  replace bytes : (fsRead image nbytes (directoryFd (UInt32.ofNat count))).bytes =
      (listedName image count).1 := congrArg Prod.fst bytes
  have fits : (fsRead image nbytes (directoryFd (UInt32.ofNat count))).bytes.length ≤ mb4 := by
    have short := length_readDir image (UInt32.ofNat count)
    rw [fsRead_directoryFd]
    simp only [nameSize, mb4] at short ⊢
    omega
  have performs := matched.readFile buf behind nbytes above (by rw [is]; rfl) (by rw [is]; rfl) owner
    (by rw [is]; exact fits) (by rw [is, moved]; exact Shown.listing (Nat.min_le_right ..))
  simp only [is, ret, bytes] at performs
  exact ⟨_, performs⟩

theorem read_text (matched : Matches formatted process k session) {nbytes : Int} {index : Fin 8}
    {inode position : UInt32} (above : fdBegin ≤ index.val) (supplied : image.Supplied inode)
    (within : position.toNat ≤ image.length inode) (owner : k.fsPcb = some process)
    (is : k.descriptor process index = fileEntry image inode position) (count : 0 ≤ nbytes ∧ nbytes ≤ reach) :
    let left := (image.content inode).drop position.toNat
    ∃ change, Performs formatted process k session buf behind (.read index.val nbytes)
      ⟨(left.take nbytes.toNat).length, left.take nbytes.toNat⟩
      (session.put index (some (.text (left.drop nbytes.toNat)))) (left.take nbytes.toNat) change := by
  intro left
  have text := fsRead_text formatted.inside supplied within count.1 count.2
  dsimp only at text
  generalize taken : ((image.content inode).drop position.toNat).take nbytes.toNat = bytes at text
  have length : bytes.length = min nbytes.toNat (image.length inode - position.toNat) := by
    rw [← taken]
    simp [Image.content]
  have small := supplied.small
  simp only [reach] at count
  have moved : (position + UInt32.ofNat bytes.length).toNat = position.toNat + bytes.length :=
    toNat_moved (by omega)
  have behind_ : (image.content inode).drop (position + UInt32.ofNat bytes.length).toNat =
      ((image.content inode).drop position.toNat).drop nbytes.toNat := by
    rw [moved, List.drop_drop, length]
    by_cases past : nbytes.toNat ≤ image.length inode - position.toNat
    · rw [Nat.min_eq_left past]
    · rw [List.drop_eq_nil_of_le (by simp [Image.content]; omega),
        List.drop_eq_nil_of_le (by simp [Image.content]; omega)]
  have within' : (position + UInt32.ofNat bytes.length).toNat ≤ image.length inode := by omega
  have shown : Shown formatted _ _ := Shown.text supplied within'
  rw [behind_] at shown
  have performs := matched.readFile buf behind nbytes above (by rw [is]; rfl) (by rw [is]; rfl) owner
    (by rw [is, text]; simp only [mb4]; omega) (by rw [is, text]; exact shown)
  simp only [is, text] at performs
  simp only [left]
  exact ⟨_, performs⟩

theorem read (matched : Matches formatted process k session) {fd nbytes : Int}
    (ticked : ∀ index, session.opened fd = some (index, .clock) → k.rtc.rtcFlag = true)
    (answered : session.answer (Image.volume formatted) (.read fd nbytes) = some (promised, later)) :
    ∃ bytes change, Performs formatted process k session buf behind (.read fd nbytes) promised later
      bytes change := by
  rw [Session.answer, Session.read] at answered
  split at answered
  · cases answered
  · rename_i keyboard
    cases found : session.opened fd with
    | none =>
        rw [found] at answered
        cases answered
        exact ⟨[], id, matched.read_refused keyboard found⟩
    | some held =>
        obtain ⟨index, handle⟩ := held
        obtain ⟨rfl, above, held⟩ := Session.opened_some found
        have shown := matched.handles index above
        rw [held] at shown
        rw [found] at answered
        generalize is : k.descriptor process index = entry at shown
        cases shown with
        | clock used clock =>
            cases answered
            subst is
            exact ⟨[], _, matched.read_clock nbytes above used clock (ticked index found)⟩
        | @listing count inside =>
            have owner := matched.owner index _ held trivial
            obtain ⟨change, performs⟩ := @matched.read_listing _ _ _ _ _ buf behind nbytes index count above inside
              owner is
            by_cases used : count < image.entryCount
            · rw [Image.names_drop formatted used] at answered
              simp only at answered
              split at answered
              · cases answered
                rw [Nat.min_eq_left (Nat.succ_le_of_lt used)] at performs
                simp only [listedName, if_pos used] at performs
                exact ⟨_, change, performs⟩
              · cases answered
            · rw [Image.names_behind formatted (Nat.le_of_not_lt used)] at answered
              simp only at answered
              split at answered
              · cases answered
                have last : min (count + 1) image.entryCount = count := by omega
                rw [last] at performs
                simp only [listedName, if_neg used, ← held, Session.put_same] at performs
                exact ⟨_, change, performs⟩
              · cases answered
        | @text inode position supplied within =>
            simp only at answered
            split at answered
            · rename_i count
              cases answered
              obtain ⟨change, performs⟩ := @matched.read_text _ _ _ _ _ buf behind nbytes index inode position above
                supplied within (matched.owner index _ held trivial) is count
              exact ⟨_, change, performs⟩
            · cases answered

theorem print (matched : Matches formatted process k session) (bytes : List UInt8) :
    Matches formatted process k (session.print bytes) :=
  ⟨matched.live, matched.args, matched.short, matched.handles, matched.owner⟩

theorem write (matched : Matches formatted process k session) {fd : Int} {bytes : List UInt8}
    (console : k.descriptor process 1 = Fd.console)
    (answered : session.answer (Image.volume formatted) (.write fd bytes) = some (promised, later)) :
    ∃ stores change, Performs formatted process k session buf behind (.write fd bytes) promised later
      stores change := by
  rw [Session.answer, Session.write] at answered
  have refused (ret : Int) (call : k.systemWrite process fd bytes = some (ret, k))
      (silent : k.output process (.write fd bytes) = []) :
      Performs formatted process k session buf behind (.write fd bytes) ⟨ret, []⟩ session [] id :=
    matched.refused (by rw [Kernel.call, call]; rfl) silent
  split at answered
  · rename_i output
    cases answered
    subst output
    have used : (k.pcbs process).fileArray.inUse 1 1 = some 1 := by
      have flags : ((k.pcbs process).fileArray 1).flags = true := congrArg Fd.flags console
      simp [FileArray.inUse, flags]
    have terminal : ((k.pcbs process).fileArray 1).fopsPtr = some .terminal := congrArg Fd.fopsPtr console
    refine ⟨[], fun k => k.mapTty (Tty.terminalWrite bytes), changed _ ?_
      (fun mem => ?_) (fun mem => ?_) (fun _ => rfl) ?_⟩
    · simp only [Kernel.call, Kernel.systemWrite, used, terminal, Option.map_some]
    · exact Matches.same (matched.print bytes) rfl rfl rfl
    · have current : (k.tty.terminalWrite bytes).currTerminal = k.tty.currTerminal :=
        Tty.currTerminal_of_keyboard (Tty.keyboard_terminalWrite bytes)
      simp only [Kernel.running, Kernel.foreground, Kernel.current, Kernel.mapTty, current]
    · simp [Session.print, Kernel.output, used, Kernel.descriptor, terminal]
  · rename_i other
    by_cases above : (fdBegin : Int) ≤ fd
    · have used := matched.inUse 1 (by decide) above
      cases found : session.opened fd with
      | none =>
          rw [found] at used answered
          cases answered
          exact ⟨[], id, refused (-1) (by rw [Kernel.systemWrite, used]; rfl) (by simp [Kernel.output, used])⟩
      | some held =>
          obtain ⟨index, handle⟩ := held
          obtain ⟨rfl, above', held⟩ := Session.opened_some found
          have shown := matched.handles index above'
          rw [held] at shown
          rw [found] at answered used
          generalize is : k.descriptor process index = entry at shown
          have dispatch : (k.pcbs process).fileArray index = entry := is
          cases shown with
          | clock flags clock =>
              cases answered
              refine ⟨[], fun k => { k with rtc := rtcWrite (textOf bytes 0) (textOf bytes 1) k.rtc },
                changed _ ?_ (fun _ => matched.same rfl rfl rfl) (fun _ => rfl) (fun _ => rfl) ?_⟩
              · simp [Kernel.call, Kernel.systemWrite, used, dispatch, clock]
              · simp [Kernel.output, used, is, clock]
          | listing inside =>
              cases answered
              refine ⟨[], id, refused (-1) ?_ ?_⟩
              · simp [Kernel.systemWrite, used, dispatch, directoryFd]
              · simp [Kernel.output, used, is, directoryFd]
          | text supplied within =>
              cases answered
              refine ⟨[], id, refused (-1) ?_ ?_⟩
              · simp [Kernel.systemWrite, used, dispatch, fileEntry]
              · simp [Kernel.output, used, is, fileEntry]
    · have unused : (k.pcbs process).fileArray.inUse 1 fd = none := by
        rw [FileArray.inUse, dif_neg]
        simp only [fdBegin] at above
        omega
      rw [Session.opened_low (by omega)] at answered
      cases answered
      exact ⟨[], id, refused (-1) (by rw [Kernel.systemWrite, unused]) (by simp [Kernel.output, unused])⟩

theorem close (matched : Matches formatted process k session) {fd : Int}
    (answered : session.answer (Image.volume formatted) (.close fd) = some (promised, later)) :
    ∃ bytes change, Performs formatted process k session buf behind (.close fd) promised later
      bytes change := by
  rw [Session.answer, Session.close] at answered
  by_cases above : (fdBegin : Int) ≤ fd
  · have used := matched.inUse fdBegin (Nat.le_refl _) above
    cases found : session.opened fd with
    | none =>
        rw [found] at used answered
        cases answered
        exact ⟨[], id, matched.refused (by rw [Kernel.call, Kernel.systemClose, used]; rfl) rfl⟩
    | some held =>
        obtain ⟨index, handle⟩ := held
        obtain ⟨rfl, above', held⟩ := Session.opened_some found
        have shown := matched.handles index above'
        rw [held] at shown
        rw [found] at answered used
        cases answered
        generalize is : k.descriptor process index = entry at shown
        have dispatch : (k.pcbs process).fileArray index = entry := is
        have closes (mem : Nat → UInt8) (rtc : Rtc) : Matches formatted process
            { { k with mem := mem }.setFiles process ((k.pcbs process).fileArray.close index) with
              rtc := rtc } (session.put index none) :=
          (matched.stored mem).put rfl rfl (Or.inl rfl) (Shown.closed rfl) fun _ absurd => by cases absurd
        cases shown with
        | clock flags clock =>
            refine ⟨[], fun stored => { stored.setFiles process ((k.pcbs process).fileArray.close index) with
                rtc := rtcClose k.rtc },
              changed _ ?_ (fun mem => closes mem (rtcClose k.rtc)) (fun _ => rfl) (fun _ => rfl)
                (List.append_nil _).symm⟩
            simp [Kernel.call, Kernel.systemClose, used, Kernel.closeEntry, dispatch, clock]
        | listing inside =>
            refine ⟨[], fun stored => stored.setFiles process ((k.pcbs process).fileArray.close index),
              changed _ ?_ (fun mem => closes mem k.rtc) (fun _ => rfl) (fun _ => rfl)
                (List.append_nil _).symm⟩
            simp [Kernel.call, Kernel.systemClose, used, Kernel.closeEntry, dispatch, directoryFd]
        | text supplied within =>
            refine ⟨[], fun stored => stored.setFiles process ((k.pcbs process).fileArray.close index),
              changed _ ?_ (fun mem => closes mem k.rtc) (fun _ => rfl) (fun _ => rfl)
                (List.append_nil _).symm⟩
            simp [Kernel.call, Kernel.systemClose, used, Kernel.closeEntry, dispatch, fileEntry]
  · rw [Session.opened_low (by omega)] at answered
    cases answered
    have unused : (k.pcbs process).fileArray.inUse fdBegin fd = none := by
      rw [FileArray.inUse, dif_neg (by omega)]
    exact ⟨[], id, matched.refused (by rw [Kernel.call, Kernel.systemClose, unused]; rfl) rfl⟩

end Matches

namespace Offers

variable {state next : Watched} {session : Session}

theorem reach {event : Event} (offers : Offers formatted process state session)
    (done : state.kernel.step image event = some next.kernel) :
    Reachable (Kernel.step image) (Kernel.Booted image) next.kernel := by
  obtain ⟨first, events, booted, path⟩ := offers.reached
  exact ⟨first, events ++ [event], booted, path.append (Path.cons trivial done (Path.nil _))⟩

theorem sane (offers : Offers formatted process state session) :
    Kernel.AllEntries SaneEntry state.kernel := (saneEntry_rule image).reachable offers.reached

theorem sound (offers : Offers formatted process state session) : Kernel.Sound state.kernel :=
  Kernel.sound_reachable offers.reached

theorem others (offers : Offers formatted process state session) (other : Others image state next) :
    Offers formatted process next session := by
  obtain ⟨printed, event, aside, done⟩ := other
  have kept := Kernel.step_kept offers.live aside done
  exact ⟨offers.toMatches.kept kept, offers.reach done, printed.trans offers.printed⟩

theorem console (offers : Offers formatted process state session) :
    state.kernel.descriptor process 1 = Fd.console :=
  (offers.sane process (Or.inl offers.live) 1).1 (by decide)

theorem performs (offers : Offers formatted process state session) {request : SysCall} {promised : Reply}
    {later : Session} {buf : Nat} (behind : Nat → UInt8) (low : mb128 ≤ buf)
    (ticked : ∀ fd nbytes index, request = .read fd nbytes →
      session.opened fd = some (index, .clock) → state.kernel.rtc.rtcFlag = true)
    (answered : session.answer (Image.volume formatted) request = some (promised, later)) :
    ∃ bytes change, Performs formatted process state.kernel session buf behind request promised later
      bytes change := by
  have matched := offers.toMatches
  cases request with
  | getargs nbytes => exact matched.getargs low answered
  | «open» filename => exact matched.openFile (Kernel.rtc_reachable offers.reached) answered
  | read fd nbytes => exact matched.read (fun index found => ticked fd nbytes index rfl found) answered
  | write fd bytes => exact matched.write offers.console answered
  | close fd => exact matched.close answered

theorem ticked (offers : Offers formatted process state session) {fd nbytes : Int} {buf : Nat}
    {behind : Nat → UInt8} {index : Fin 8} (found : session.opened fd = some (index, .clock))
    (done : (state.kernel.call image process buf behind (.read fd nbytes)).isSome) :
    state.kernel.rtc.rtcFlag = true := by
  obtain ⟨rfl, above, held⟩ := Session.opened_some found
  have shown := offers.handles index above
  rw [held] at shown
  generalize is : state.kernel.descriptor process index = entry at shown
  cases shown with
  | clock used clock =>
      subst is
      have notOutput : ¬(index.val : Int) = 1 := by
        simp only [fdBegin] at above
        omega
      have rtc : ((state.kernel.pcbs process).fileArray index).fopsPtr = some .rtc := clock
      rw [formatted.call_read, Kernel.systemRead, if_neg notOutput, FileArray.inUse_used used] at done
      by_contra unset
      simp [rtc, rtcRead, unset] at done

theorem performed (offers : Offers formatted process state session) {request : SysCall} {reply : Reply}
    {buf : Nat} {behind : Nat → UInt8} {after : Kernel}
    (answerable : ∃ reply later, session.Answers (Image.volume formatted) request reply later)
    (low : mb128 ≤ buf) (done : state.kernel.call image process buf behind request = some (reply, after)) :
    ∃ promised later change mem,
      session.answer (Image.volume formatted) request = some (promised, later) ∧
      Performs formatted process state.kernel session buf behind request promised later reply.bytes change ∧
      reply.ret = promised.ret ∧ after = change { state.kernel with mem := mem } ∧
      state.kernel.storeBytes buf reply.bytes = some { state.kernel with mem := mem } := by
  obtain ⟨-, later, promised, answered, -⟩ := answerable
  have ticked : ∀ fd nbytes index, request = .read fd nbytes →
      session.opened fd = some (index, .clock) → state.kernel.rtc.rtcFlag = true := by
    rintro fd nbytes index rfl found
    exact offers.ticked found (Option.isSome_iff_exists.mpr ⟨_, done⟩)
  obtain ⟨bytes, change, performs⟩ := offers.performs behind low ticked answered
  rw [performs.call] at done
  obtain ⟨stored, copied, same⟩ := Option.map_eq_some_iff.mp done
  obtain ⟨⟨mem, rfl⟩, -⟩ := Kernel.storeBytes_stored copied
  obtain ⟨rfl, rfl⟩ := Prod.mk.inj same
  exact ⟨promised, later, change, mem, answered, performs, rfl, rfl, copied⟩

theorem served (offers : Offers formatted process state session) {request : SysCall} {reply : Reply}
    (answerable : ∃ reply later, session.Answers (Image.volume formatted) request reply later)
    (called : Calls image process state request reply next) :
    ∃ later, session.Answers (Image.volume formatted) request reply later ∧
      Offers formatted process next later := by
  obtain ⟨buf, behind, low, done⟩ := called.done
  have moved := Kernel.call_step called.running done
  obtain ⟨promised, later, change, mem, answered, performs, ret, after, -⟩ :=
    offers.performed answerable low done
  refine ⟨later, ⟨promised, answered, ret, performs.promise, performs.exact_⟩, ?_, offers.reach moved, ?_⟩
  · rw [after]
    exact performs.matched mem
  · rw [called.printed, performs.printed, offers.printed]

theorem memory (offers : Offers formatted process state session) {request : SysCall} {reply : Reply}
    {buf : Nat} {behind : Nat → UInt8} {after : Kernel}
    (answerable : ∃ reply later, session.Answers (Image.volume formatted) request reply later)
    (low : mb128 ≤ buf) (done : state.kernel.call image process buf behind request = some (reply, after)) :
    ∃ stored, state.kernel.storeBytes buf reply.bytes = some stored ∧ after.mem = stored.mem := by
  obtain ⟨promised, later, change, mem, -, performs, -, rfl, stored⟩ := offers.performed answerable low done
  exact ⟨_, stored, performs.memory mem⟩

theorem comes (offers : Offers formatted process state session) (running : state.Running process)
    {request : SysCall}
    (answerable : ∃ reply later, session.Answers (Image.volume formatted) request reply later) :
    ∃ middle reply next, Relation.ReflTransGen (Others image) state middle ∧
      Calls image process middle request reply next ∧ next.Running process := by
  obtain ⟨-, later, promised, answered, -⟩ := answerable
  -- a tick first, in case the call is a read of the clock
  let ticking : Watched := { state with kernel := { state.kernel with rtc := rtcHandler state.kernel.rtc } }
  have tick : Others image state ticking := ⟨rfl, .rtcTick, trivial, rfl⟩
  have offers' := offers.others tick
  have running' : ticking.kernel.running = some process := running
  obtain ⟨bytes, change, performs⟩ := offers'.performs (fun _ => 0)
    (Nat.le_refl mb128) (fun _ _ _ _ _ => rfl) answered
  obtain ⟨mem, stored⟩ := offers'.sound.storeBytes_page (Kernel.running_foreground running')
    (by rw [Nat.zero_add]; exact performs.fits)
  rw [Nat.add_zero] at stored
  refine ⟨ticking, ⟨promised.ret, bytes⟩,
    { kernel := change { ticking.kernel with mem := mem }
      printed := ticking.printed ++ ticking.kernel.output process request },
    Relation.ReflTransGen.single tick, ⟨running', ⟨mb128, fun _ => 0, Nat.le_refl _, ?_⟩, rfl⟩, ?_⟩
  · rw [performs.call, stored]
    rfl
  · exact (performs.running mem).trans running'

end Offers

theorem serves (formatted : image.Formatted) (process : Slot) :
    Serves (Calls image process) (Others image) (Watched.Running process)
      (Session.Answers (Image.volume formatted)) (Offers formatted process) where
  answered offers answerable called := offers.served answerable called
  passed offers other := offers.others other
  comes offers running answerable := offers.comes running answerable

/-! ### A program that begins -/

def ArgumentsFit (command : List UInt8) : Prop :=
  2 * ((Kernel.commandText command).length - (Kernel.commandArgs command).length) +
    (Kernel.commandArgs command).length < lineBuffer

instance (command : List UInt8) : Decidable (ArgumentsFit command) := inferInstanceAs (Decidable (_ < _))

theorem isCString_copyArgs {command : List UInt8} (fit : ArgumentsFit command) (stale : Nat → UInt8) :
    IsCString (Kernel.copyArgs command stale) (Kernel.commandArgs command) := by
  rw [ArgumentsFit] at fit
  have copied (k : Nat) (inside : k ≤ (Kernel.commandArgs command).length) :
      Kernel.copyArgs command stale k = textOf (Kernel.commandArgs command) k :=
    if_pos ⟨by omega, inside⟩
  refine ⟨fun k bound => ?_, fun c listed => ?_, ?_⟩
  · rw [copied k (Nat.le_of_lt bound), textOf, List.getD_eq_getElem _ _ bound]
  · have text : c ∈ Kernel.commandText command :=
      List.mem_of_mem_drop (List.dropWhile_sublist _ |>.subset listed)
    simpa using List.mem_takeWhile_imp text
  · rw [copied _ (Nat.le_refl _), textOf, List.getD_eq_default _ _ (Nat.le_refl _)]

def Session.fresh (args : List UInt8) : Session := { args := args, handles := fun _ => none, printed := [] }

theorem offers_executed {k next : Kernel} {command : List UInt8} {stale : Stale}
    (formatted : image.Formatted)
    (reached : Reachable (Kernel.step image) (Kernel.Booted image) k) (running : k.running = some process)
    (fit : ArgumentsFit command)
    (executed : k.systemExecute image command stale = some (.started next)) :
    ∃ slot, next.running = some slot ∧
      Offers formatted slot ⟨next, []⟩ (Session.fresh (Kernel.commandArgs command)) := by
  have taken : k.step image (.execute command stale) = some next := by
    simp only [Kernel.step, running, Option.bind_some, Kernel.programEvent, executed, Kernel.executed]
  obtain ⟨slot, dentry, entry, free, -, -, launch⟩ := Kernel.systemExecute_started executed
  have pcb := Kernel.launch_pcb launch
  obtain ⟨loaded, copied, rfl⟩ := Option.map_eq_some_iff.mp launch
  obtain ⟨⟨mem, rfl⟩, -⟩ := Kernel.storeBytes_stored copied
  have idle := Kernel.running_idle running
  have fits := isCString_copyArgs fit (newPcbInit stale.pcb).args
  refine ⟨slot, ?_, ⟨?_, ?_, ?_, ?_, ?_⟩, ?_, rfl⟩
  · exact Kernel.running_of idle (Function.update_self ..)
  · exact Function.update_self ..
  · rw [pcb]
    exact fits
  · rw [ArgumentsFit] at fit
    change (Kernel.commandArgs command).length < lineBuffer
    omega
  · intro fd above
    have closed : ¬fd.val < fdBegin := Nat.not_lt.mpr above
    rw [Kernel.descriptor, pcb]
    refine Shown.closed ?_
    simp only [Kernel.namedPcb, newPcbInit, if_neg closed]
    rfl
  · intro fd handle held
    cases held
  · obtain ⟨first, events, booted, path⟩ := reached
    exact ⟨first, events ++ [_], booted, path.append (Path.cons trivial taken (Path.nil _))⟩

/-- What a program ensures of a session it delivers over the kernel, its buffers included. -/
theorem program_delivers {α : Type} {program : Client SysCall Reply α} {post : α → Session → Prop}
    {k next : Kernel} {caller : Slot} {command : List UInt8} {stale : Stale} (formatted : image.Formatted)
    (ensures : Ensures (Session.Answers (Image.volume formatted)) post program
      (Session.fresh (Kernel.commandArgs command)))
    (reached : Reachable (Kernel.step image) (Kernel.Booted image) k) (running : k.running = some caller)
    (fit : ArgumentsFit command)
    (executed : k.systemExecute image command stale = some (.started next)) :
    ∃ slot, next.running = some slot ∧
      Delivers (Calls image slot) (Others image) (Watched.Running slot) program
        (fun value state => ∃ session, post value session ∧ Offers formatted slot state session) ⟨next, []⟩ ∧
      ∀ state request left, Woven (Calls image slot) (Others image) ⟨next, []⟩ program state
          (.call request left) →
        ∀ buf behind reply after, mb128 ≤ buf →
          state.kernel.call image slot buf behind request = some (reply, after) →
          ∃ stored, state.kernel.storeBytes buf reply.bytes = some stored ∧ after.mem = stored.mem := by
  obtain ⟨slot, started, offers⟩ := offers_executed formatted reached running fit executed
  refine ⟨slot, started, (serves formatted slot).delivers offers ensures ?_, ?_⟩
  · exact fun value state session offers holds => ⟨session, holds, offers⟩
  · intro state request left woven buf behind reply after low done
    obtain ⟨session, offers', ensures'⟩ := (serves formatted slot).woven offers ensures woven
    exact offers'.memory ensures'.1 low done

theorem started_textImage {command : List UInt8}
    (ran : ((Kernel.runOn textImage [.firstShell Kernel.noStale]).bind fun k =>
      (Kernel.started (k.systemExecute textImage command Kernel.noStale)).map fun _ =>
        decide (k.running = some 0)) = some true) :
    ∃ k next, Reachable (Kernel.step textImage) (Kernel.Booted textImage) k ∧ k.running = some 0 ∧
      k.systemExecute textImage command Kernel.noStale = some (.started next) := by
  obtain ⟨k, computed, ran⟩ := Option.bind_eq_some_iff.mp ran
  obtain ⟨next, executed, running⟩ := Option.map_eq_some_iff.mp ran
  exact ⟨k, next, Kernel.runOn_reachable computed, of_decide_eq_true running, Kernel.started_some executed⟩

def catCommand : List UInt8 := [0x63, 0x61, 0x74, 0x20, 0x61]

theorem program_delivers_write :
    ∃ (next : Kernel) (slot : Slot), next.running = some slot ∧
      Delivers (Calls textImage slot) (Others textImage) (Watched.Running slot)
        (Client.ask (.write 1 [0x78]))
        (fun reply state => ∃ session : Session, (reply.ret = 2 ∧ session.printed = [0x78]) ∧
          Offers formatted_textImage slot state session) ⟨next, []⟩ := by
  obtain ⟨k, next, reached, running, executed⟩ := @started_textImage catCommand (by decide +kernel)
  have ensures : Ensures (Session.Answers (Image.volume formatted_textImage))
      (fun (reply : Reply) (session : Session) => reply.ret = 2 ∧ session.printed = [0x78])
      (Client.ask (.write 1 [0x78])) (Session.fresh (Kernel.commandArgs catCommand)) := by
    refine ⟨⟨_, _, _, rfl, rfl, List.prefix_rfl, fun _ => rfl⟩, ?_⟩
    rintro reply later ⟨promised, answered, ret, -, -⟩
    cases answered
    exact ⟨ret, rfl⟩
  obtain ⟨slot, started, delivers, -⟩ :=
    program_delivers formatted_textImage ensures reached running (by decide +kernel) executed
  exact ⟨next, slot, started, delivers⟩

end G29Os
