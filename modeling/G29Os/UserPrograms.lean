import G29Os.SessionCalls

/-!
`cat` and `ls`, which read a descriptor to its end and print what they get. Their buffers are
functions of the index; `rounds` bounds the reads that are followed.
-/

namespace G29Os

open CallTree CallTree.Client ByteRange

abbrev UserProgram := Client SysCall Reply

def text (message : String) : List UInt8 := ascii message.toList

def fdputs (message : List UInt8) : UserProgram Unit := do
  let _ ← ask (.write 1 message)
  return ()

def storedAt (buf : Nat → UInt8) (start : Nat) (bytes : List UInt8) : Nat → UInt8 :=
  writeRange buf start bytes.length (textOf bytes)

def bufferBytes (buf : Nat → UInt8) (count : Nat) : List UInt8 := (List.range count).map buf

def bufSize : Nat := 1024

def catRound (fd : Int) (buf : Nat → UInt8) : UserProgram ((Nat → UInt8) ⊕ Int) := do
  let read ← ask (.read fd bufSize)
  let buf := storedAt buf 0 read.bytes
  if read.ret = 0 then return .inr 0
  if read.ret = -1 then
    fdputs (text "file read failed\n")
    return .inr 3
  let wrote ← ask (.write 1 (bufferBytes buf read.ret.toNat))
  if wrote.ret = -1 then return .inr 3
  return .inl buf

def cat (rounds : Nat) (buf : Nat → UInt8) : UserProgram (Option Int) := do
  let args ← ask (.getargs bufSize)
  let buf := storedAt buf 0 args.bytes
  if args.ret ≠ 0 then
    fdputs (text "could not read arguments\n")
    return some 3
  let file ← ask (.open (cString bufSize buf))
  if file.ret = -1 then
    fdputs (text "file not found\n")
    return some 2
  loop (catRound file.ret) rounds buf

def sbufSize : Nat := 33

def lsRound (fd : Int) (buf : Nat → UInt8) : UserProgram ((Nat → UInt8) ⊕ Int) := do
  let read ← ask (.read fd (sbufSize - 1))
  let buf := storedAt buf 0 read.bytes
  if read.ret = 0 then return .inr 0
  if read.ret = -1 then
    fdputs (text "directory entry read failed\n")
    return .inr 3
  let buf := Function.update buf read.ret.toNat 10
  let wrote ← ask (.write 1 (bufferBytes buf (read.ret + 1).toNat))
  if wrote.ret = -1 then return .inr 3
  return .inl buf

def ls (rounds : Nat) (buf : Nat → UInt8) : UserProgram (Option Int) := do
  let directory ← ask (.open (text "."))
  if directory.ret = -1 then
    fdputs (text "directory open failed\n")
    return some 2
  loop (lsRound directory.ret) rounds buf

/-! ### What the calls of a session ensure -/

variable {volume : Volume} {session later : Session} {promised : Reply} {request : SysCall} {α : Type}
  {post : α → Session → Prop} {next : Reply → UserProgram α}

theorem ensures_answer (answered : session.answer volume request = some (promised, later))
    (other : ∀ nbytes, request ≠ .getargs nbytes) :
    Ensures (Session.Answers volume) post (call request next) session ↔
      Ensures (Session.Answers volume) post (next promised) later := by
  rw [ensures_call]
  constructor
  · intro ensures
    exact ensures.2 promised later ⟨promised, answered, rfl, List.prefix_rfl, fun _ => rfl⟩
  · intro ensures
    refine ⟨⟨promised, later, promised, answered, rfl, List.prefix_rfl, fun _ => rfl⟩, ?_⟩
    rintro ⟨ret, bytes⟩ world ⟨reply, is, same, -, exactly⟩
    obtain ⟨rfl, rfl⟩ := Prod.mk.inj (Option.some.inj (answered.symm.trans is))
    have stored := exactly other
    dsimp only at same stored
    subst same stored
    exact ensures

theorem ensures_getargs (room : (session.args.length : Int) < bufSize)
    (ensures : ∀ bytes, session.args ++ [0] <+: bytes →
      Ensures (Session.Answers volume) post (next ⟨0, bytes⟩) session) :
    Ensures (Session.Answers volume) post (call (.getargs bufSize) next) session := by
  have answered : session.answer volume (.getargs bufSize) = some (⟨0, session.args ++ [0]⟩, session) := by
    rw [Session.answer, if_pos ⟨room, Int.le_refl _⟩]
  refine ⟨⟨_, session, _, answered, rfl, List.prefix_rfl, fun _ => rfl⟩, ?_⟩
  rintro ⟨ret, bytes⟩ world ⟨reply, is, same, starts, -⟩
  obtain ⟨rfl, rfl⟩ := Prod.mk.inj (Option.some.inj (answered.symm.trans is))
  dsimp only at same starts
  subst same
  exact ensures bytes starts

theorem Session.opened_held {index : Fin 8} {handle : Handle} (above : fdBegin ≤ index.val)
    (held : session.handles index = some handle) :
    session.opened index.val = some (index, handle) := by
  have bound : (fdBegin : Int) ≤ (index.val : Int) ∧ (index.val : Int) ≤ 7 := by omega
  have same : (⟨(index.val : Int).toNat, by omega⟩ : Fin 8) = index := Fin.ext (Int.toNat_natCast _)
  rw [Session.opened, dif_pos bound]
  simp only [same, held, Option.map_some]

theorem bufferBytes_storedAt {buf : Nat → UInt8} {bytes : List UInt8} {count : Nat}
    (fits : count ≤ bytes.length) : bufferBytes (storedAt buf 0 bytes) count = bytes.take count := by
  apply List.ext_getElem
  · simp [bufferBytes]
    omega
  · intro index inside inside'
    have bound : index < bytes.length := by
      rw [List.length_take] at inside'
      omega
    have cell : storedAt buf 0 bytes (0 + index) = textOf bytes index := writeRange_inside bound
    rw [Nat.zero_add] at cell
    simp [bufferBytes, cell, textOf, bound]

theorem isCString_storedAt {buf : Nat → UInt8} {bytes args : List UInt8} (starts : args ++ [0] <+: bytes)
    (nonzero : ∀ c ∈ args, c ≠ 0) : IsCString (storedAt buf 0 bytes) args := by
  obtain ⟨behind, rfl⟩ := starts
  have cell (index : Nat) (inside : index ≤ args.length) :
      storedAt buf 0 (args ++ [0] ++ behind) index = textOf (args ++ [0] ++ behind) index := by
    have stored : storedAt buf 0 (args ++ [0] ++ behind) (0 + index) = textOf (args ++ [0] ++ behind) index :=
      writeRange_inside (by simp; omega)
    rwa [Nat.zero_add] at stored
  refine ⟨fun index bound => ?_, nonzero, ?_⟩
  · rw [cell index (Nat.le_of_lt bound), textOf, List.append_assoc, List.getD_append _ _ _ _ bound,
      List.getD_eq_getElem _ _ bound]
  · rw [cell _ (Nat.le_refl _), textOf, List.append_assoc, List.getD_append_right _ _ _ _ (Nat.le_refl _)]
    simp

namespace Handle

def rest : Handle → List UInt8
  | .clock => []
  | .listing names => names.flatten
  | .text content => content

def Listed : Handle → Prop
  | .listing names => ∀ name ∈ names, name ≠ [] ∧ name.length ≤ nameSize
  | _ => True

end Handle

theorem Node.listed (volume : Volume) (node : Node) : (node.handle volume).Listed := by
  cases node with
  | rtc => trivial
  | directory =>
      intro name listed
      obtain ⟨entry, -, rfl⟩ := List.mem_map.mp listed
      exact ⟨entry.named, entry.short⟩
  | regular content => trivial

structure Takes (volume : Volume) (session : Session) (fd : Fin 8) (nbytes : Int) (handle : Handle)
    (reply : Reply) (left : Handle) : Prop where
  answered : session.answer volume (.read fd.val nbytes) = some (reply, session.put fd (some left))
  nonneg : 0 ≤ reply.ret
  stored : reply.ret.toNat ≤ reply.bytes.length
  taken : handle.rest = reply.bytes.take reply.ret.toNat ++ left.rest
  listed : left.Listed
  ended : reply.ret = 0 ↔ handle.rest = []

theorem notKeyboard {fd : Fin 8} (above : fdBegin ≤ fd.val) : ¬(fd.val : Int) = 0 := by
  simp only [fdBegin] at above
  omega

theorem Session.put_held {fd : Fin 8} {handle : Handle} (held : session.handles fd = some handle) :
    session.put fd (some handle) = session := by
  rw [← held, Session.put_same]

theorem takes_name {fd : Fin 8} {nbytes : Int} {name : List UInt8} {names : List (List UInt8)}
    (above : fdBegin ≤ fd.val) (held : session.handles fd = some (.listing (name :: names)))
    (listed : (Handle.listing (name :: names)).Listed) (room : (nameSize : Int) ≤ nbytes) :
    Takes volume session fd nbytes (.listing (name :: names)) ⟨name.length, padded name⟩ (.listing names) := by
  obtain ⟨named, short⟩ := listed name List.mem_cons_self
  have first : (padded name).take name.length = name := by simp [padded]
  constructor
  · rw [Session.answer, Session.read, if_neg (notKeyboard above), Session.opened_held above held]
    simp only [if_pos room]
  · exact Int.natCast_nonneg _
  · simp [padded]
  · simp [Handle.rest, first]
  · exact fun other member => listed other (List.mem_cons_of_mem _ member)
  · simp [Handle.rest, named]

theorem takes {fd : Fin 8} {nbytes : Int} {handle : Handle} (above : fdBegin ≤ fd.val)
    (held : session.handles fd = some handle) (listed : handle.Listed) (room : (nameSize : Int) ≤ nbytes)
    (small : nbytes ≤ reach) : ∃ reply left, Takes volume session fd nbytes handle reply left := by
  have found := Session.opened_held above held
  cases handle with
  | clock =>
      refine ⟨⟨0, []⟩, .clock, ?_, Int.le_refl 0, Nat.le_refl 0, rfl, trivial, by simp [Handle.rest]⟩
      rw [Session.answer, Session.read, if_neg (notKeyboard above), found, Session.put_held held]
  | listing names =>
      cases names with
      | nil =>
          refine ⟨⟨0, List.replicate nameSize 0⟩, .listing [], ?_, Int.le_refl 0, Nat.zero_le _, rfl, listed,
            by simp [Handle.rest]⟩
          rw [Session.answer, Session.read, if_neg (notKeyboard above), found, Session.put_held held]
          simp only [if_pos room]
      | cons name names => exact ⟨_, _, takes_name above held listed room⟩
  | text content =>
      have nonneg : 0 ≤ nbytes := (Int.natCast_nonneg _).trans room
      refine ⟨⟨(content.take nbytes.toNat).length, content.take nbytes.toNat⟩,
        .text (content.drop nbytes.toNat), ?_, Int.natCast_nonneg _, Nat.le_refl _, ?_, trivial, ?_⟩
      · rw [Session.answer, Session.read, if_neg (notKeyboard above), found]
        simp only [if_pos (And.intro nonneg small)]
      · rw [Int.toNat_natCast, List.take_length]
        exact (List.take_append_drop _ _).symm
      · have some : nbytes.toNat ≠ 0 := by
          simp only [nameSize] at room
          omega
        rw [Int.natCast_eq_zero, List.length_eq_zero_iff, List.take_eq_nil_iff]
        exact or_iff_right some

/-! ### `cat` -/

def Copying (fd : Fin 8) (total : List UInt8) (session : Session) : Prop :=
  ∃ handle, session.handles fd = some handle ∧ handle.Listed ∧ session.printed ++ handle.rest = total

def leftIn (fd : Fin 8) (session : Session) : Nat :=
  ((session.handles fd).map Handle.rest).elim 0 List.length

theorem leftIn_held {fd : Fin 8} {handle : Handle} (held : session.handles fd = some handle) :
    leftIn fd session = handle.rest.length := by
  simp [leftIn, held]

theorem Session.handles_put {fd : Fin 8} {handle : Option Handle} :
    (session.put fd handle).handles fd = handle := Function.update_self ..

theorem answer_print {bytes : List UInt8} :
    session.answer volume (.write 1 bytes) = some (⟨bytes.length + 1, []⟩, session.print bytes) := rfl

theorem fdputs_ensures {message : List UInt8} {rest : Unit → UserProgram α}
    (printed : Ensures (Session.Answers volume) post (rest ()) (session.print message)) :
    Ensures (Session.Answers volume) post ((fdputs message).bind rest) session := by
  have same : (fdputs message).bind rest = call (.write 1 message) fun _ => rest () := rfl
  rw [same, ensures_answer answer_print (by simp)]
  exact printed

theorem catRound_ensures {fd : Fin 8} {total : List UInt8} {buf : Nat → UInt8} (above : fdBegin ≤ fd.val)
    (copying : Copying fd total session) :
    Ensures (Session.Answers volume) (fun result later => result.elim
      (fun _ => Copying fd total later ∧ leftIn fd later < leftIn fd session)
      fun status => status = 0 ∧ later.printed = total) (catRound fd.val buf) session := by
  obtain ⟨handle, held, listed, sum⟩ := copying
  obtain ⟨reply, left, takes⟩ := @takes volume session fd bufSize handle above held listed (by decide) (by decide)
  simp only [catRound, bind_eq, ask_bind]
  rw [ensures_answer takes.answered (by simp)]
  by_cases ended : reply.ret = 0
  · have none := takes.ended.mp ended
    rw [none, List.append_nil] at sum
    rw [if_pos ended]
    exact ⟨rfl, sum⟩
  · have nonneg := takes.nonneg
    have read : ¬reply.ret = -1 := by omega
    rw [if_neg ended, if_neg read, ensures_answer answer_print (by simp), bufferBytes_storedAt takes.stored]
    have wrote : ¬(((reply.bytes.take reply.ret.toNat).length : Int) + 1 = -1) := by omega
    simp only [wrote, if_false, pure_eq, ensures_done, Sum.elim_inl]
    have moved : (((session.put fd (some left)).print (reply.bytes.take reply.ret.toNat)).handles fd) =
        some left := Session.handles_put
    have taken := takes.taken
    have some : 0 < (reply.bytes.take reply.ret.toNat).length := by
      have stored := takes.stored
      rw [List.length_take]
      omega
    refine ⟨⟨left, moved, takes.listed, ?_⟩, ?_⟩
    · rw [← sum, taken, ← List.append_assoc]
      rfl
    · rw [leftIn_held moved, leftIn_held held, taken, List.length_append]
      omega

def catResult (volume : Volume) (filename : List UInt8) : Int × List UInt8 :=
  match volume.lookup filename with
  | none => (2, text "file not found\n")
  | some node => (0, (node.handle volume).rest)

def enoughRounds : Nat := 4096 * 1023 + 1

theorem cat_ensures {args : List UInt8} {buf : Nat → UInt8} {rounds : Nat} (nonzero : ∀ c ∈ args, c ≠ 0)
    (short : args.length < lineBuffer)
    (small : ∀ node, volume.lookup args = some node → (node.handle volume).rest.length < rounds) :
    Ensures (Session.Answers volume)
      (fun status later => ∃ value, status = some value ∧ (value, later.printed) = catResult volume args)
      (cat rounds buf) (Session.fresh args) := by
  have room : ((Session.fresh args).args.length : Int) < bufSize := by
    change (args.length : Int) < 1024
    simp only [lineBuffer] at short
    omega
  simp only [cat, bind_eq, ask_bind]
  refine ensures_getargs room fun bytes starts => ?_
  have string : IsCString (storedAt buf 0 bytes) args := isCString_storedAt starts nonzero
  have name : cString bufSize (storedAt buf 0 bytes) = args :=
    string.cString_eq (by simp only [lineBuffer, bufSize] at short ⊢; omega)
  have named : 0 ∉ args := fun zero => nonzero 0 zero rfl
  simp only [ne_eq, not_true, if_false, name]
  cases found : volume.lookup args with
  | none =>
      have answered : (Session.fresh args).answer volume (.open args) =
          some (⟨-1, []⟩, Session.fresh args) := by
        rw [Session.answer, if_neg named, Session.openFile, found]
      rw [ensures_answer answered (by simp)]
      simp only [if_true]
      refine fdputs_ensures ?_
      simp [catResult, found, Session.print, Session.fresh]
  | some node =>
      have answered : (Session.fresh args).answer volume (.open args) =
          some (⟨2, []⟩, (Session.fresh args).put 2 (some (node.handle volume))) := by
        have free : (Session.fresh args).firstFree = some 2 := rfl
        rw [Session.answer, if_neg named, Session.openFile, found, free]
        rfl
      rw [ensures_answer answered (by simp)]
      have opened : ¬(2 : Int) = -1 := by decide
      have above : fdBegin ≤ (2 : Fin 8).val := by decide
      simp only [opened, if_false]
      have rounds : Rounds (Session.Answers volume)
          (fun status later => status = 0 ∧ later.printed = (node.handle volume).rest) (catRound 2)
          (fun _ later => Copying 2 (node.handle volume).rest later) (fun _ later => leftIn 2 later) :=
        ⟨fun buf session copying => catRound_ensures above copying⟩
      have start : Copying 2 (node.handle volume).rest
          ((Session.fresh args).put 2 (some (node.handle volume))) :=
        ⟨_, Session.handles_put, Node.listed volume node, rfl⟩
      refine (rounds.loop start ?_).mono ?_
      · rw [leftIn_held Session.handles_put]
        exact small node found
      · rintro status later ⟨value, rfl, rfl, printed⟩
        exact ⟨0, rfl, by rw [printed, catResult, found]⟩

/-! ### `ls` -/

def listed (names : List (List UInt8)) : List UInt8 := names.flatMap fun name => name ++ [10]

def Listing (fd : Fin 8) (total : List UInt8) (session : Session) : Prop :=
  ∃ names, session.handles fd = some (.listing names) ∧ (Handle.listing names).Listed ∧
    session.printed ++ listed names = total

theorem bufferBytes_terminated {buf : Nat → UInt8} {bytes : List UInt8} {count : Nat}
    (fits : count ≤ bytes.length) :
    bufferBytes (Function.update (storedAt buf 0 bytes) count 10) (count + 1) = bytes.take count ++ [10] := by
  rw [bufferBytes, List.range_succ, List.map_append, List.map_singleton, Function.update_self]
  congr 1
  rw [← bufferBytes_storedAt fits, bufferBytes]
  refine List.map_congr_left fun index inside => ?_
  have before := List.mem_range.mp inside
  exact Function.update_of_ne (by omega) ..

theorem lsRound_ensures {fd : Fin 8} {total : List UInt8} {buf : Nat → UInt8} (above : fdBegin ≤ fd.val)
    (listing : Listing fd total session) :
    Ensures (Session.Answers volume) (fun result later => result.elim
      (fun _ => Listing fd total later ∧ leftIn fd later < leftIn fd session)
      fun status => status = 0 ∧ later.printed = total) (lsRound fd.val buf) session := by
  obtain ⟨names, held, known, sum⟩ := listing
  simp only [lsRound, bind_eq, ask_bind]
  cases names with
  | nil =>
      obtain ⟨reply, left, takes⟩ := @takes volume session fd (sbufSize - 1) _ above held known
        (by decide) (by decide)
      have ended := takes.ended.mpr rfl
      rw [ensures_answer takes.answered (by simp), if_pos ended]
      have printed : session.printed = total := by simpa [listed] using sum
      exact ⟨rfl, printed⟩
  | cons name names =>
      have takes := @takes_name volume session fd (sbufSize - 1) name names above held known (by decide)
      have named := (known name List.mem_cons_self).1
      have positive : 0 < name.length := List.length_pos_iff.mpr named
      have ended : ¬(name.length : Int) = 0 := by omega
      have read : ¬(name.length : Int) = -1 := by omega
      have line : bufferBytes (Function.update (storedAt buf 0 (padded name)) (name.length : Int).toNat 10)
          ((name.length : Int) + 1).toNat = name ++ [10] := by
        have next : ((name.length : Int) + 1).toNat = name.length + 1 := by omega
        rw [Int.toNat_natCast, next, bufferBytes_terminated (by simp [padded])]
        simp [padded]
      rw [ensures_answer takes.answered (by simp), if_neg ended, if_neg read,
        ensures_answer answer_print (by simp), line]
      have wrote : ¬(((name ++ [10]).length : Int) + 1 = -1) := by omega
      simp only [wrote, if_false, pure_eq, ensures_done, Sum.elim_inl]
      have moved : ((session.put fd (some (.listing names))).print (name ++ [10])).handles fd =
          some (.listing names) := Session.handles_put
      refine ⟨⟨names, moved, takes.listed, ?_⟩, ?_⟩
      · rw [← sum]
        simp [listed, Session.print, Session.put]
      · rw [leftIn_held moved, leftIn_held held]
        simp [Handle.rest]
        omega

theorem ls_ensures {args : List UInt8} {buf : Nat → UInt8} {rounds : Nat}
    (dot : volume.lookup (text ".") = some .directory)
    (small : (Handle.listing volume.names).rest.length < rounds) :
    Ensures (Session.Answers volume)
      (fun status later => status = some 0 ∧ later.printed = listed volume.names)
      (ls rounds buf) (Session.fresh args) := by
  have above : fdBegin ≤ (2 : Fin 8).val := by decide
  have opened : ¬(2 : Int) = -1 := by decide
  have answered : (Session.fresh args).answer volume (.open (text ".")) =
      some (⟨2, []⟩, (Session.fresh args).put 2 (some (.listing volume.names))) := by
    have free : (Session.fresh args).firstFree = some 2 := rfl
    rw [Session.answer, if_neg (by decide), Session.openFile, dot, free]
    rfl
  simp only [ls, bind_eq, ask_bind]
  rw [ensures_answer answered (by simp)]
  simp only [opened, if_false]
  have rounds : Rounds (Session.Answers volume)
      (fun status later => status = 0 ∧ later.printed = listed volume.names) (lsRound 2)
      (fun _ later => Listing 2 (listed volume.names) later) (fun _ later => leftIn 2 later) :=
    ⟨fun buf session listing => lsRound_ensures above listing⟩
  have start : Listing 2 (listed volume.names)
      ((Session.fresh args).put 2 (some (.listing volume.names))) :=
    ⟨_, Session.handles_put, Node.listed volume .directory, rfl⟩
  refine (rounds.loop start ?_).mono ?_
  · rw [leftIn_held Session.handles_put]
    exact small
  · rintro status later ⟨value, rfl, rfl, printed⟩
    exact ⟨rfl, printed⟩

/-! ### Over the kernel -/

section Kernel

variable {image : Image} {formatted : image.Formatted} {k next : Kernel} {caller : Slot}
  {command : List UInt8} {stale : Stale}

theorem length_flatten_le {names : List (List UInt8)} {size : Nat}
    (short : ∀ name ∈ names, name.length ≤ size) : names.flatten.length ≤ names.length * size := by
  induction names with
  | nil => simp
  | cons name names ih =>
      have first := short name List.mem_cons_self
      have others := ih fun other listed => short other (List.mem_cons_of_mem name listed)
      rw [List.flatten_cons, List.length_append, List.length_cons, Nat.succ_mul]
      omega

theorem rest_volume_le (formatted : image.Formatted) {filename : List UInt8} {node : Node}
    (found : (Image.volume formatted).lookup filename = some node) :
    (node.handle (Image.volume formatted)).rest.length < enoughRounds := by
  rw [Image.lookup_volume] at found
  obtain ⟨slot, -, rfl⟩ := Option.map_eq_some_iff.mp found
  rw [Image.dentryNode]
  split
  · exact Nat.succ_pos _
  · split
    · have most := length_flatten_le fun name listed =>
        (Node.listed (Image.volume formatted) .directory name listed).2
      have fits := formatted.named.fits
      have count : (Image.volume formatted).names.length = image.entryCount := by
        simp [Image.names_volume]
      simp only [count, nameSize] at most
      simp only [directoryEntries] at fits
      simp only [Handle.rest, Node.handle, enoughRounds]
      omega
    · rename_i clock directory
      have supplied := formatted.files slot slot.isLt
        (((formatted.known slot slot.isLt).resolve_left clock).resolve_left directory)
      have small := supplied.small
      simp only [Handle.rest, Node.handle, Image.content, List.length_map, List.length_range, enoughRounds]
      omega

/-- Started by `execute`, `cat` prints the file that its arguments name, and ends. -/
theorem cat_delivers (formatted : image.Formatted) (buf : Nat → UInt8)
    (reached : StepRun.Reachable (Kernel.step image) (Kernel.Booted image) k)
    (running : k.running = some caller) (fit : ArgumentsFit command)
    (executed : k.systemExecute image command stale = some (.started next)) :
    ∃ slot, next.running = some slot ∧
      Delivers (Calls image slot) (Others image) (Watched.Running slot) (cat enoughRounds buf)
        (fun status state => ∃ value, status = some value ∧
          (value, state.printed) = catResult (Image.volume formatted) (Kernel.commandArgs command))
        ⟨next, []⟩ := by
  obtain ⟨slot, started, offers⟩ := offers_executed formatted reached running fit executed
  have nonzero := offers.args.nonzero
  refine ⟨slot, started, (serves formatted slot).delivers offers
    (cat_ensures nonzero offers.short fun node found => rest_volume_le formatted found) ?_⟩
  rintro status state session offers ⟨value, is, result⟩
  exact ⟨value, is, offers.printed ▸ result⟩

theorem cat_delivers_text :
    ∃ (next : Kernel) (slot : Slot), next.running = some slot ∧
      Delivers (Calls textImage slot) (Others textImage) (Watched.Running slot)
        (cat enoughRounds fun _ => 0)
        (fun status state => ∃ value, status = some value ∧ (value, state.printed) = (0, text "x\nay"))
        ⟨next, []⟩ := by
  obtain ⟨k, next, reached, running, executed⟩ := @started_textImage catCommand (by decide +kernel)
  obtain ⟨slot, started, delivers⟩ :=
    cat_delivers formatted_textImage (fun _ => 0) reached running (by decide +kernel) executed
  have result : catResult (Image.volume formatted_textImage) (Kernel.commandArgs catCommand) =
      (0, text "x\nay") := by
    decide +kernel
  rw [result] at delivers
  exact ⟨next, slot, started, delivers⟩

/-- `ls` prints the names in the directory, each on a line of its own. -/
theorem ls_delivers (formatted : image.Formatted) (buf : Nat → UInt8)
    (dot : (Image.volume formatted).lookup (text ".") = some .directory)
    (reached : StepRun.Reachable (Kernel.step image) (Kernel.Booted image) k)
    (running : k.running = some caller) (fit : ArgumentsFit command)
    (executed : k.systemExecute image command stale = some (.started next)) :
    ∃ slot, next.running = some slot ∧
      Delivers (Calls image slot) (Others image) (Watched.Running slot) (ls enoughRounds buf)
        (fun status state => status = some 0 ∧
          state.printed = listed (Image.volume formatted).names) ⟨next, []⟩ := by
  obtain ⟨slot, started, offers⟩ := offers_executed formatted reached running fit executed
  refine ⟨slot, started, (serves formatted slot).delivers offers
    (ls_ensures dot (rest_volume_le formatted dot)) ?_⟩
  rintro status state session offers ⟨is, result⟩
  exact ⟨is, offers.printed.trans result⟩

def lsCommand : List UInt8 := [0x6c, 0x73]

theorem ls_delivers_text :
    ∃ (next : Kernel) (slot : Slot), next.running = some slot ∧
      Delivers (Calls textImage slot) (Others textImage) (Watched.Running slot)
        (ls enoughRounds fun _ => 0)
        (fun status state => status = some 0 ∧ state.printed = text "shell\n.\ncat\na\nls\ngrep\n")
        ⟨next, []⟩ := by
  obtain ⟨k, next, reached, running, executed⟩ := @started_textImage lsCommand (by decide +kernel)
  have dot : (Image.volume formatted_textImage).lookup (text ".") = some .directory := by
    rfl
  obtain ⟨slot, started, delivers⟩ :=
    ls_delivers formatted_textImage (fun _ => 0) dot reached running (by decide +kernel) executed
  have names : listed (Image.volume formatted_textImage).names = text "shell\n.\ncat\na\nls\ngrep\n" := by
    decide +kernel
  rw [names] at delivers
  exact ⟨next, slot, started, delivers⟩

end Kernel

end G29Os
