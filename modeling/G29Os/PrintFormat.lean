import Mathlib.Data.Int.Basic
import G29Os.NumberFormat

/-!
`printf`: the walk over a format and its conversions, each of which leaves the numeral of its
argument.
-/

namespace G29Os

open BoundedLoop ByteRange Numerals

/-- The argument of a call: the format, the words behind it on the stack, the strings that such
words point to, and what the `conv_buf` of the conversion of each word has in it. -/
structure PrintCall where
  format : Nat → UInt8
  stack : Nat → UInt32
  strings : UInt32 → List UInt8
  convBuf : Nat → Nat → UInt8

structure PrintState where
  buf : Nat
  esp : Nat
  printed : List UInt8

def atOffset (offset : Nat) (change : (Nat → UInt8) → Nat → UInt8) (buf : Nat → UInt8) : Nat → UInt8 :=
  fun k => if k < offset then buf k else change (fun j => buf (offset + j)) (k - offset)

def unsignedText (arg : UInt32) (convBuf : Nat → UInt8) : List UInt8 :=
  cString 36 (itoa arg convBuf 10)

def signedText (arg : UInt32) (convBuf : Nat → UInt8) : List UInt8 :=
  let value := arg.toInt32
  if value < 0 then
    cString 36 (atOffset 1 (fun buf => itoa (-value).toUInt32 buf 10) (Function.update convBuf 0 45))
  else cString 36 (itoa value.toUInt32 convBuf 10)

def padZeros (start : Nat) (convBuf : Nat → UInt8) : Nat → UInt8 :=
  (whileLoop (fun at_ : Nat × (Nat → UInt8) => decide (at_.1 < 8))
    (fun at_ => (at_.1 + 1, Function.update at_.2 at_.1 48)) 8 (start, convBuf)).2

def hexText (alternate : Bool) (arg : UInt32) (convBuf : Nat → UInt8) : List UInt8 :=
  if alternate = false then cString 64 (itoa arg convBuf 16)
  else
    let converted := atOffset 8 (fun buf => itoa arg buf 16) convBuf
    let startingIndex := strlen 56 fun k => converted (8 + k)
    let padded := padZeros startingIndex converted
    cString (64 - startingIndex) fun k => padded (startingIndex + k)

namespace PrintState

def emit (text : List UInt8) (state : PrintState) : PrintState :=
  { state with printed := state.printed ++ text }

def next (state : PrintState) : PrintState := { state with esp := state.esp + 1 }

end PrintState

def convert (call : PrintCall) (alternate : Bool) (c : UInt8) (state : PrintState) : PrintState :=
  let arg := call.stack state.esp
  let convBuf := call.convBuf state.esp
  if c = 37 then state.emit [37]
  else if c = 120 then (state.emit (hexText alternate arg convBuf)).next
  else if c = 117 then (state.emit (unsignedText arg convBuf)).next
  else if c = 100 then (state.emit (signedText arg convBuf)).next
  else if c = 99 then (state.emit [arg.toUInt8]).next
  else if c = 115 then (state.emit (call.strings arg)).next
  else state

def isHash (call : PrintCall) (buf : Nat) : Bool := decide (call.format buf = 35)

/-- Where `goto format_char_switch` has led past the `#` from `buf` on. -/
def behindHashes (size : Nat) (call : PrintCall) (buf : Nat) : Nat :=
  whileLoop (isHash call) (fun buf => buf + 1) size buf

def printRound (size : Nat) (call : PrintCall) (state : PrintState) : PrintState :=
  if call.format state.buf = 37 then
    let at_ := behindHashes size call (state.buf + 1)
    { convert call (decide (at_ ≠ state.buf + 1)) (call.format at_) state with buf := at_ + 1 }
  else { state.emit [call.format state.buf] with buf := state.buf + 1 }

def unfinished (call : PrintCall) (state : PrintState) : Bool := decide (call.format state.buf ≠ 0)

def printf (size : Nat) (call : PrintCall) : PrintState :=
  whileLoop (unfinished call) (printRound size call) size { buf := 0, esp := 0, printed := [] }

/-! ### The texts of the conversions -/

variable {arg : UInt32} {convBuf : Nat → UInt8} {text : List UInt8} {offset : Nat}

theorem IsCString.atOffset {change : (Nat → UInt8) → Nat → UInt8} {buf : Nat → UInt8}
    (string : IsCString (change fun j => buf (offset + j)) text) :
    IsCString (fun k => atOffset offset change buf (offset + k)) text := by
  have same : (fun k => G29Os.atOffset offset change buf (offset + k)) =
      change fun j => buf (offset + j) := by
    funext k
    rw [G29Os.atOffset, if_neg (by omega), Nat.add_sub_cancel_left]
  rwa [same]

theorem length_decimal (n : UInt32) : (numeral digitChar 10 n.toNat).length ≤ 10 :=
  length_numeral_le (by decide) (by decide) (Nat.lt_trans n.toNat_lt (by decide))

theorem length_hexadecimal (n : UInt32) : (numeral digitChar 16 n.toNat).length ≤ 8 :=
  length_numeral_le (by decide) (by decide) n.toNat_lt

theorem unsignedText_eq : unsignedText arg convBuf = numeral digitChar 10 arg.toNat := by
  have string := @itoa_string arg 10 convBuf (by decide) (by decide)
  exact string.cString_eq (Nat.le_trans (length_decimal arg) (by decide))

theorem hexText_plain : hexText false arg convBuf = numeral digitChar 16 arg.toNat := by
  have string := @itoa_string arg 16 convBuf (by decide) (by decide)
  exact string.cString_eq (Nat.le_trans (length_hexadecimal arg) (by decide))

theorem padZeros_eq {start : Nat} (inside : start ≤ 8) :
    padZeros start convBuf = writeRange convBuf start (8 - start) fun _ => 48 := by
  obtain ⟨⟨low, high, written⟩, stopped⟩ := whileLoop_rule
    (fun at_ : Nat × (Nat → UInt8) => decide (at_.1 < 8))
    (fun at_ => (at_.1 + 1, Function.update at_.2 at_.1 48))
    (fun at_ => start ≤ at_.1 ∧ at_.1 ≤ 8 ∧
      at_.2 = writeRange convBuf start (at_.1 - start) fun _ => 48)
    (fun at_ => 8 - at_.1)
    (fun at_ kept running => by
      obtain ⟨low, high, written⟩ := kept
      have short := of_decide_eq_true running
      dsimp only
      refine ⟨⟨by omega, by omega, ?_⟩, by omega⟩
      have place : at_.1 = start + (at_.1 - start) := by omega
      have count : at_.1 + 1 - start = at_.1 - start + 1 := by omega
      rw [update_eq_writeRange, written, count]
      nth_rewrite 2 [place]
      exact writeRange_append (fun _ _ => rfl) (fun _ _ => rfl))
    8 (start, convBuf) ⟨Nat.le_refl _, inside, by rw [Nat.sub_self, writeRange_zero]⟩ (Nat.sub_le _ _)
  have finish := of_decide_eq_false stopped
  have last : (whileLoop (fun at_ : Nat × (Nat → UInt8) => decide (at_.1 < 8))
    (fun at_ => (at_.1 + 1, Function.update at_.2 at_.1 48)) 8 (start, convBuf)).1 = 8 := by omega
  rw [last] at written
  exact written

theorem IsCString.padded {buffer : Nat → UInt8} {c : UInt8} {count : Nat}
    (first : ∀ k, k < count → buffer k = c) (nonzero : c ≠ 0)
    (rest : IsCString (fun k => buffer (count + k)) text) :
    IsCString buffer (List.replicate count c ++ text) := by
  induction count generalizing buffer with
  | zero =>
      simp only [Nat.zero_add] at rest
      exact rest
  | succ count ih =>
      rw [List.replicate_succ, List.cons_append]
      refine IsCString.cons (first 0 (Nat.succ_pos count)) nonzero (ih ?_ ?_)
      · exact fun k inside => first (k + 1) (Nat.succ_lt_succ inside)
      · have behind : (fun k => buffer (count + k + 1)) = fun k => buffer (count + 1 + k) := by
          funext k
          rw [Nat.add_right_comm]
        rw [behind]
        exact rest

theorem hexText_alternate :
    hexText true arg convBuf =
      List.replicate (8 - (numeral digitChar 16 arg.toNat).length) 48 ++ numeral digitChar 16 arg.toNat := by
  have short := length_hexadecimal arg
  have string := @IsCString.atOffset _ 8 (fun buf => itoa arg buf 16) convBuf
    (@itoa_string arg 16 _ (by decide) (by decide))
  change IsCString _ (numeral digitChar 16 arg.toNat) at string
  rw [hexText, if_neg (by decide)]
  dsimp only
  rw [strlen_eq string (by omega), padZeros_eq short]
  generalize numeral digitChar 16 arg.toNat = text at short string
  have padded : IsCString (fun k => writeRange (atOffset 8 (fun buf => itoa arg buf 16) convBuf)
      text.length (8 - text.length) (fun _ => 48) (text.length + k))
      (List.replicate (8 - text.length) 48 ++ text) := by
    refine IsCString.padded (fun k inside => writeRange_inside inside) (by decide) ?_
    have behind : (fun k => writeRange (atOffset 8 (fun buf => itoa arg buf 16) convBuf)
        text.length (8 - text.length) (fun _ => 48) (text.length + (8 - text.length + k))) =
        fun k => atOffset 8 (fun buf => itoa arg buf 16) convBuf (8 + k) := by
      funext k
      have place : text.length + (8 - text.length + k) = 8 + k := by omega
      rw [place, writeRange_outside (by omega)]
    rw [behind]
    exact string
  refine padded.cString_eq ?_
  rw [List.length_append, List.length_replicate]
  omega

def SignedNumeral (radix : Nat) (value : Int) (text : List UInt8) : Prop :=
  if value < 0 then ∃ digits, text = 45 :: digits ∧ Numeral radix value.natAbs digits
  else Numeral radix value.natAbs text

theorem signedText_spec : SignedNumeral 10 arg.toInt32.toInt (signedText arg convBuf) := by
  have bound := arg.toNat_lt
  have value : arg.toInt32.toInt = if 2 * arg.toNat < 4294967296 then (arg.toNat : Int)
      else (arg.toNat : Int) - 4294967296 := BitVec.toInt_eq_toNat_cond arg.toBitVec
  have sign : arg.toInt32 < 0 ↔ arg.toInt32.toInt < 0 := Int32.lt_iff_toInt_lt
  rw [SignedNumeral, signedText]
  by_cases negative : arg.toInt32 < 0
  · have below := sign.mp negative
    have negated : (-arg.toInt32).toUInt32.toNat = (4294967296 - arg.toNat) % 4294967296 :=
      BitVec.toNat_neg arg.toBitVec
    have amount : (-arg.toInt32).toUInt32.toNat = arg.toInt32.toInt.natAbs := by
      split at value <;> omega
    have digits := @IsCString.atOffset _ 1 (fun buf => itoa (-arg.toInt32).toUInt32 buf 10)
      (Function.update convBuf 0 45) (itoa_string (by decide) (by decide))
    simp only [Nat.add_comm 1] at digits
    have minus : atOffset 1 (fun buf => itoa (-arg.toInt32).toUInt32 buf 10)
        (Function.update convBuf 0 45) 0 = 45 := rfl
    have string := IsCString.cons minus (by decide) digits
    have short := length_decimal (-arg.toInt32).toUInt32
    rw [if_pos below, if_pos negative, string.cString_eq]
    · refine ⟨_, rfl, ?_⟩
      rw [amount]
      exact numeral_spec (by decide) (by decide) _
    · exact Nat.le_trans (Nat.succ_le_succ short) (by decide)
  · have above := mt sign.mpr negative
    have amount : arg.toNat = arg.toInt32.toInt.natAbs := by
      split at value <;> omega
    have text := @unsignedText_eq arg convBuf
    rw [if_neg above, if_neg negative, ← amount]
    rw [unsignedText] at text
    rw [UInt32.toUInt32_toInt32, text]
    exact numeral_spec (by decide) (by decide) arg.toNat

/-! ### Formats -/

inductive Piece where
  | plain (c : UInt8) (literal : c ≠ 37)
  | percent
  | hex
  | hex8
  | unsigned
  | signed
  | char
  | string

namespace Piece

def format : Piece → List UInt8
  | plain c _ => [c]
  | percent => [37, 37]
  | hex => [37, 120]
  | hex8 => [37, 35, 120]
  | unsigned => [37, 117]
  | signed => [37, 100]
  | char => [37, 99]
  | string => [37, 115]

def words : Piece → Nat
  | plain _ _ => 0
  | percent => 0
  | _ => 1

end Piece

def Renders (call : PrintCall) (esp : Nat) : Piece → List UInt8 → Prop
  | .plain c _, out => out = [c]
  | .percent, out => out = [37]
  | .hex, out => Numeral 16 (call.stack esp).toNat out
  | .hex8, out => out.length = 8 ∧ parse digitValue 16 out = some (call.stack esp).toNat
  | .unsigned, out => Numeral 10 (call.stack esp).toNat out
  | .signed, out => SignedNumeral 10 (call.stack esp).toInt32.toInt out
  | .char, out => out = [(call.stack esp).toUInt8]
  | .string, out => out = call.strings (call.stack esp)

inductive Rendering (call : PrintCall) : List Piece → Nat → List UInt8 → Prop
  | nil (esp : Nat) : Rendering call [] esp []
  | cons {piece : Piece} {pieces : List Piece} {esp : Nat} {out rest : List UInt8}
      (first : Renders call esp piece out) (later : Rendering call pieces (esp + piece.words) rest) :
      Rendering call (piece :: pieces) esp (out ++ rest)

variable {call : PrintCall} {size : Nat} {state : PrintState}

theorem hexText_eight : (hexText true arg convBuf).length = 8 ∧
    parse digitValue 16 (hexText true arg convBuf) = some arg.toNat := by
  have short := length_hexadecimal arg
  have reads : Reads digitChar digitValue 16 := digitChar_reads (by decide)
  have length : (hexText true arg convBuf).length = 8 := by
    rw [hexText_alternate, List.length_append, List.length_replicate]
    omega
  have some_ : (hexText true arg convBuf).isEmpty = false := by
    rw [List.isEmpty_eq_false_iff, ← List.length_pos_iff, length]
    decide
  refine ⟨length, ?_⟩
  have padded := @readFrom_padded _ digitChar digitValue 16 reads (by decide)
    (8 - (numeral digitChar 16 arg.toNat).length) (numeral digitChar 16 arg.toNat)
  have zero : digitChar 0 = 48 := rfl
  rw [readFrom_numeral reads (by decide), zero, ← @hexText_alternate arg convBuf] at padded
  rw [parse, some_]
  exact padded

theorem behindHashes_none {buf : Nat} (other : call.format buf ≠ 35) :
    behindHashes size call buf = buf := whileLoop_done (decide_eq_false other)

theorem behindHashes_one {buf : Nat} (hash : call.format buf = 35) (other : call.format (buf + 1) ≠ 35)
    (budget : 0 < size) : behindHashes size call buf = buf + 1 := by
  obtain ⟨fuel, rfl⟩ := Nat.exists_eq_succ_of_ne_zero (Nat.ne_of_gt budget)
  have running : isHash call buf = true := decide_eq_true hash
  rw [behindHashes, whileLoop_step running]
  exact whileLoop_done (decide_eq_false other)

theorem printRound_conversion {c : UInt8} (percent : call.format state.buf = 37)
    (conversion : call.format (state.buf + 1) = c) (other : c ≠ 35) :
    printRound size call state = { convert call false c state with buf := state.buf + 2 } := by
  have at_ : behindHashes size call (state.buf + 1) = state.buf + 1 :=
    behindHashes_none (conversion ▸ other)
  rw [printRound, if_pos percent]
  dsimp only
  rw [at_, conversion, decide_eq_false (not_not.mpr rfl)]

theorem printRound_renders {piece : Piece} {rest : List UInt8}
    (string : IsCString (fun k => call.format (state.buf + k)) (piece.format ++ rest))
    (budget : 0 < size) :
    ∃ out, Renders call state.esp piece out ∧
      printRound size call state =
        { buf := state.buf + piece.format.length
          esp := state.esp + piece.words
          printed := state.printed ++ out } := by
  have byte (k : Nat) (bound : k < piece.format.length) :
      call.format (state.buf + k) = piece.format[k] := by
    have inside : k < (piece.format ++ rest).length := by
      rw [List.length_append]
      omega
    exact (string.bytes k inside).trans (List.getElem_append_left bound)
  cases piece with
  | plain c literal =>
      have here : call.format state.buf = c := byte 0 Nat.one_pos
      rw [printRound, if_neg (here ▸ literal), here]
      exact ⟨[c], rfl, rfl⟩
  | percent =>
      rw [printRound_conversion (byte 0 (by decide)) (byte 1 (by decide)) (by decide)]
      exact ⟨[37], rfl, rfl⟩
  | hex =>
      rw [printRound_conversion (byte 0 (by decide)) (byte 1 (by decide)) (by decide)]
      refine ⟨_, ?_, rfl⟩
      change Numeral 16 _ _
      rw [hexText_plain]
      exact numeral_spec (by decide) (by decide) _
  | hex8 =>
      have percent : call.format state.buf = 37 := byte 0 (by decide)
      have hash : call.format (state.buf + 1) = 35 := byte 1 (by decide)
      have conversion : call.format (state.buf + 2) = 120 := byte 2 (by decide)
      have other : call.format (state.buf + 1 + 1) ≠ 35 := by
        change call.format (state.buf + 2) ≠ 35
        rw [conversion]
        decide
      have apart : state.buf + 1 + 1 ≠ state.buf + 1 := Nat.succ_ne_self _
      rw [printRound, if_pos percent]
      dsimp only
      rw [behindHashes_one hash other budget, decide_eq_true apart]
      change ∃ out, _ ∧ ({ convert call true (call.format (state.buf + 2)) state with
        buf := state.buf + 3 } : PrintState) = _
      rw [conversion]
      exact ⟨_, hexText_eight, rfl⟩
  | unsigned =>
      rw [printRound_conversion (byte 0 (by decide)) (byte 1 (by decide)) (by decide)]
      refine ⟨_, ?_, rfl⟩
      change Numeral 10 _ _
      rw [unsignedText_eq]
      exact numeral_spec (by decide) (by decide) _
  | signed =>
      rw [printRound_conversion (byte 0 (by decide)) (byte 1 (by decide)) (by decide)]
      exact ⟨_, signedText_spec, rfl⟩
  | char =>
      rw [printRound_conversion (byte 0 (by decide)) (byte 1 (by decide)) (by decide)]
      exact ⟨_, rfl, rfl⟩
  | string =>
      rw [printRound_conversion (byte 0 (by decide)) (byte 1 (by decide)) (by decide)]
      exact ⟨_, rfl, rfl⟩

theorem printRounds_render (pieces : List Piece)
    (string : IsCString (fun k => call.format (state.buf + k)) (pieces.flatMap Piece.format))
    (budget : 0 < size) (fuel : Nat) (enough : pieces.length ≤ fuel) :
    ∃ out, Rendering call pieces state.esp out ∧
      (whileLoop (unfinished call) (printRound size call) fuel state).printed =
        state.printed ++ out := by
  induction pieces generalizing state fuel with
  | nil =>
      have ends : call.format state.buf = 0 := string.ends
      have stopped : unfinished call state = false := decide_eq_false (not_not.mpr ends)
      rw [whileLoop_done stopped]
      exact ⟨[], Rendering.nil state.esp, (List.append_nil _).symm⟩
  | cons piece pieces ih =>
      rw [List.flatMap_cons] at string
      obtain ⟨out, first, round⟩ := printRound_renders string budget
      have long : 0 < piece.format.length := by cases piece <;> exact Nat.succ_pos _
      have whole : piece.format.length ≤ (piece.format ++ pieces.flatMap Piece.format).length := by
        rw [List.length_append]
        omega
      have running : unfinished call state = true := by
        apply decide_eq_true
        intro zero
        have ends := (string.zero_iff (Nat.zero_le _)).mp zero
        omega
      have rest := string.drop whole
      rw [List.drop_left] at rest
      simp only [← Nat.add_assoc] at rest
      obtain ⟨fuel, rfl⟩ : ∃ left, fuel = left + 1 := ⟨fuel - 1, by
        rw [List.length_cons] at enough
        omega⟩
      obtain ⟨text, later, printed⟩ := @ih (printRound size call state) (by rw [round]; exact rest) fuel
        (Nat.le_of_succ_le_succ enough)
      rw [round] at later printed
      refine ⟨out ++ text, Rendering.cons first later, ?_⟩
      rw [whileLoop_step running, round, printed, List.append_assoc]

theorem length_pieces_le (pieces : List Piece) : pieces.length ≤ (pieces.flatMap Piece.format).length := by
  induction pieces with
  | nil => exact Nat.le_refl 0
  | cons piece pieces ih =>
      have long : 0 < piece.format.length := by cases piece <;> exact Nat.succ_pos _
      rw [List.flatMap_cons, List.length_append, List.length_cons]
      omega

/-- `itoa` for every radix, and `printf` for every format. -/
theorem numbers_roundTrip :
    (∀ (value radix : UInt32) (buf : Nat → UInt8), 2 ≤ radix → radix ≤ 36 →
      ∃ text, IsCString (itoa value buf radix) text ∧ Numeral radix.toNat value.toNat text) ∧
    ∀ (call : PrintCall) (pieces : List Piece) (size : Nat),
      IsCString call.format (pieces.flatMap Piece.format) →
      (pieces.flatMap Piece.format).length < size →
      Rendering call pieces 0 (printf size call).printed := by
  constructor
  · intro value radix buf large small
    have two : 1 < radix.toNat := UInt32.le_iff_toNat_le.mp large
    have most : radix.toNat ≤ 36 := UInt32.le_iff_toNat_le.mp small
    exact ⟨_, itoa_string two most, numeral_spec two most value.toNat⟩
  · intro call pieces size string fits
    have origin : IsCString (fun k => call.format (0 + k)) (pieces.flatMap Piece.format) := by
      simp only [Nat.zero_add]
      exact string
    have enough : pieces.length ≤ size :=
      Nat.le_trans (length_pieces_le pieces) (Nat.le_of_lt fits)
    obtain ⟨out, rendering, printed⟩ := @printRounds_render call size
      { buf := 0, esp := 0, printed := [] } pieces origin (Nat.zero_lt_of_lt fits) size enough
    rw [printf, printed]
    exact rendering

def percentPieces : List Piece := [.signed, .percent, .plain 0x2C (by decide), .hex8]

/-- `printf("%d%%,%#x", -5, 0xBEEF)` -/
def percentCall : PrintCall where
  format := fun k => ((percentPieces.flatMap Piece.format)[k]?).getD 0
  stack := fun esp => if esp = 0 then 0xFFFFFFFB else 0xBEEF
  strings := fun _ => []
  convBuf := fun _ _ => 0x55

theorem numbers_roundTrip_percent :
    (∃ text, IsCString (itoa 0xBEEF (fun _ => 0x55) 7) text ∧ Numeral 7 0xBEEF text) ∧
    IsCString percentCall.format (percentPieces.flatMap Piece.format) ∧
    (percentPieces.flatMap Piece.format).length < 16 ∧
    Rendering percentCall percentPieces 0 (printf 16 percentCall).printed := by
  have string : IsCString percentCall.format (percentPieces.flatMap Piece.format) :=
    ⟨by decide +kernel, by decide +kernel, rfl⟩
  exact ⟨numbers_roundTrip.1 0xBEEF 7 (fun _ => 0x55) (by decide) (by decide), string, by decide,
    numbers_roundTrip.2 percentCall percentPieces 16 string (by decide)⟩

end G29Os
