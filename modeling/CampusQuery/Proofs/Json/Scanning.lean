import CampusQuery.Json.Reader
import CampusQuery.Proofs.Json.Numbers

/-!
# The tokens of a written document

Text that was written is cut into the tokens of the document, whatever the blanks between them
(`Scans`, `Readable.scans`). It takes three facts of the parts: a string is read back character by
character (`scanString_write`), an integer from its digits (`scan_writeInt`), and blanks are dropped
(`scanAll_blanks`). `Readable` are the documents that this holds of and that the reader takes.
-/

namespace CampusQuery.Json

namespace Token

theorem hexDigit?_digitChar {n : Nat} (small : n < 16) : hexDigit? n.digitChar = some n := by
  interval_cases n <;> decide

theorem scanString_control (done : List Char) {c : Char} (control : c < ' ') (rest : List Char) :
    scanString done ('\\' :: 'u' :: '0' :: '0' :: (c.toNat / 16).digitChar ::
      (c.toNat % 16).digitChar :: rest) = scanString (c :: done) rest := by
  have small : c.toNat < 32 := control
  have unit : hexUnit? '0' '0' (c.toNat / 16).digitChar (c.toNat % 16).digitChar =
      some c.toNat := by
    have zero : hexDigit? '0' = some 0 := rfl
    simp only [hexUnit?, zero, hexDigit?_digitChar (show c.toNat / 16 < 16 by omega),
      hexDigit?_digitChar (show c.toNat % 16 < 16 by omega), Option.bind_eq_bind, Option.bind_some,
      Option.pure_def]
    congr 1
    omega
  have leading : isLeadingSurrogate c.toNat = false := decide_eq_false (by omega)
  have trailing : isTrailingSurrogate c.toNat = false := decide_eq_false (by omega)
  rw [scanString, unit]
  simp only [leading, trailing, Bool.false_eq_true, if_false, Char.ofNat_toNat]

theorem scanString_plain (done : List Char) {c : Char} (quote : c ≠ '"') (backslash : c ≠ '\\')
    (printed : ¬ c < ' ') (rest : List Char) :
    scanString done (c :: rest) = scanString (c :: done) rest := by
  rw [scanString, if_neg (not_or.mpr ⟨backslash, printed⟩)]
  · exact quote
  · exact fun _ _ _ _ _ h => absurd h backslash
  · exact fun _ _ h => absurd h backslash

/-- A character is read back from the way it is written in a string. -/
theorem scanString_writeChar (done : List Char) (c : Char) (rest : List Char) :
    scanString done (writeChar c ++ rest) = scanString (c :: done) rest := by
  unfold writeChar
  split
  case h_8 =>
    rename_i quote backslash _ _ _ _ _
    split
    · rename_i control
      exact scanString_control done control rest
    · rename_i printed
      exact scanString_plain done quote backslash printed rest
  all_goals rfl

theorem scanString_write (done : List Char) (s rest : List Char) :
    scanString done (s.flatMap writeChar ++ '"' :: rest) = some (done.reverse ++ s, rest) := by
  induction s generalizing done with
  | nil => simp [scanString]
  | cons c s ih =>
    rw [List.flatMap_cons, List.append_assoc, scanString_writeChar, ih, List.reverse_cons,
      List.append_assoc, List.singleton_append]

theorem scan_string (s : String) (rest : List Char) :
    scan '"' (s.toList.flatMap writeChar ++ '"' :: rest) = some (.string s, rest) := by
  simp only [scan, scanString_write, Option.map_some, List.reverse_nil, List.nil_append,
    String.ofList_toList]

/-- What starts with a minus or a digit is a number, for no other token does. -/
theorem scan_number {c : Char} (first : c = '-' ∨ c.isDigit = true) (rest : List Char) :
    isBlank c = false ∧
      scan c rest = (scanNumber (c :: rest)).map fun (n, rest) => (.number n, rest) := by
  have others : c ∉ [' ', '\n', '\t', '\r', '[', ']', '{', '}', ',', ':', '"', 'n', 't', 'f'] := by
    rcases first with rfl | digit
    · decide
    · intro mem
      fin_cases mem <;> exact absurd digit (by decide)
  simp only [List.mem_cons, List.not_mem_nil, or_false, not_or] at others
  refine ⟨by simp [isBlank, others], ?_⟩
  unfold scan
  split
  case h_11 => rfl
  all_goals simp_all

theorem scan_writeInt {n : Int} (lower : -2 ^ 63 ≤ n) (upper : n < 2 ^ 64) {rest : List Char}
    (stops : Stops rest) :
    ∃ c cs, writeInt n ++ rest = c :: cs ∧ isBlank c = false ∧
      scan c cs = some (.number (.integer n), rest) := by
  obtain ⟨c, cs, text, first⟩ : ∃ c cs, writeInt n = c :: cs ∧ (c = '-' ∨ c.isDigit = true) := by
    obtain ⟨c, digits, written, digit, _⟩ := exists_toDigits n.natAbs
    rw [writeInt, written]
    split
    · exact ⟨_, _, rfl, .inl rfl⟩
    · exact ⟨_, _, rfl, .inr digit⟩
  have scanned := scanNumber_writeInt lower upper stops
  rw [text, List.cons_append] at scanned ⊢
  obtain ⟨printed, scan⟩ := scan_number first (cs ++ rest)
  exact ⟨c, cs ++ rest, rfl, printed, by rw [scan, scanned]; rfl⟩

theorem scanAll_blank (done : List Token) {c : Char} (blank : isBlank c = true) (rest : List Char) :
    scanAll done (c :: rest) = scanAll done rest := by
  rw [scanAll, if_pos blank]

theorem scanAll_blanks (done : List Token) {blanks : List Char}
    (blank : ∀ c ∈ blanks, isBlank c = true) (rest : List Char) :
    scanAll done (blanks ++ rest) = scanAll done rest := by
  induction blanks with
  | nil => rfl
  | cons c blanks ih =>
    obtain ⟨first, others⟩ := List.forall_mem_cons.mp blank
    rw [List.cons_append, scanAll_blank done first, ih others]

theorem scanAll_token (done : List Token) {c : Char} (printed : isBlank c = false)
    {rest rest' : List Char} {token : Token} (h : scan c rest = some (token, rest')) :
    scanAll done (c :: rest) = scanAll (token :: done) rest' := by
  rw [scanAll, printed, if_neg Bool.false_ne_true]
  split
  · rename_i none
    rw [h] at none
    cases none
  · rename_i found
    rw [h] at found
    cases found
    rfl

end Token

/-! ## Documents -/

mutual

/-- The tokens of a document. -/
def tokens : Json → List Token
  | .null => [.null]
  | .bool b => [.bool b]
  | .number n => [.number n]
  | .string s => [.string s]
  | .array [] => [.openArray, .closeArray]
  | .array (item :: items) => .openArray :: (tokens item ++ (itemTokens items ++ [.closeArray]))
  | .object [] => [.openObject, .closeObject]
  | .object ((name, value) :: fields) =>
    .openObject :: .string name :: .colon ::
      (tokens value ++ (fieldTokens fields ++ [.closeObject]))

/-- The tokens of the items after the first. -/
def itemTokens : List Json → List Token
  | [] => []
  | item :: items => .comma :: (tokens item ++ itemTokens items)

/-- The tokens of the members after the first. -/
def fieldTokens : List (String × Json) → List Token
  | [] => []
  | (name, value) :: fields =>
    .comma :: .string name :: .colon :: (tokens value ++ fieldTokens fields)

end

/-- A document that can be written and read with the given number of containers around it: it holds
whole numbers of 64 bits only, names are different, and there are not too many containers. -/
inductive Readable : Nat → Json → Prop
  | null {opened : Nat} : Readable opened .null
  | bool {opened : Nat} (b : Bool) : Readable opened (.bool b)
  | integer {opened : Nat} {n : Int} (lower : -2 ^ 63 ≤ n) (upper : n < 2 ^ 64) :
    Readable opened (.number (.integer n))
  | string {opened : Nat} (s : String) : Readable opened (.string s)
  | array {opened : Nat} {items : List Json} (room : opened < Reader.maxDepth)
    (each : ∀ item ∈ items, Readable (opened + 1) item) : Readable opened (.array items)
  | object {opened : Nat} {fields : List (String × Json)} (room : opened < Reader.maxDepth)
    (nodup : (fields.map Prod.fst).Nodup)
    (each : ∀ field ∈ fields, Readable (opened + 1) field.2) : Readable opened (.object fields)

/-- The layout puts nothing but blanks between tokens. -/
structure Layout.Blank (layout : Layout) : Prop where
  lineBreak : ∀ depth, ∀ c ∈ layout.lineBreak depth, Token.isBlank c = true
  colon : ∃ blanks, layout.colon = ':' :: blanks ∧ ∀ c ∈ blanks, Token.isBlank c = true

theorem Layout.blank_compact : compact.Blank where
  lineBreak := nofun
  colon := ⟨[], rfl, nofun⟩

theorem Layout.blank_indented : indented.Blank where
  lineBreak depth c mem := by
    rcases List.mem_cons.mp mem with rfl | space
    · rfl
    · rw [(List.mem_replicate.mp space).2]
      rfl
  colon := ⟨[' '], rfl, by simp [Token.isBlank]⟩

/-! ## Scanning documents -/

theorem stops_cons {c : Char} (rest : List Char)
    (other : c.isDigit = false ∧ c ≠ '.' ∧ c ≠ 'e' ∧ c ≠ 'E') : Stops (c :: rest) := by
  rintro _ ⟨⟩
  exact other

theorem stops_append {blanks rest : List Char} (blank : ∀ c ∈ blanks, Token.isBlank c = true)
    (stops : Stops rest) : Stops (blanks ++ rest) := by
  cases blanks with
  | nil => exact stops
  | cons c blanks =>
    refine stops_cons _ ?_
    have first := blank c List.mem_cons_self
    simp only [Token.isBlank, Bool.or_eq_true, decide_eq_true_eq] at first
    rcases first with ((rfl | rfl) | rfl) | rfl <;> decide

theorem stops_writeItems (layout : Layout) (depth : Nat) (items : List Json) {rest : List Char}
    (stops : Stops rest) : Stops (writeItems layout depth items ++ rest) := by
  cases items with
  | nil => exact stops
  | cons item items => exact stops_cons _ (by decide)

theorem stops_writeFields (layout : Layout) (depth : Nat) (fields : List (String × Json))
    {rest : List Char} (stops : Stops rest) : Stops (writeFields layout depth fields ++ rest) := by
  cases fields with
  | nil => exact stops
  | cons field fields => exact stops_cons _ (by decide)

/-- The text of the document is cut into its tokens. -/
def Scans (layout : Layout) (document : Json) : Prop :=
  ∀ depth done rest, Stops rest →
    Token.scanAll done (write layout depth document ++ rest) =
      Token.scanAll ((tokens document).reverse ++ done) rest

section Scanning

variable {layout : Layout} (blank : layout.Blank)

include blank

theorem scanAll_colon (done : List Token) (rest : List Char) :
    Token.scanAll done (layout.colon ++ rest) = Token.scanAll (.colon :: done) rest := by
  obtain ⟨blanks, colon, blank⟩ := blank.colon
  rw [colon, List.cons_append, Token.scanAll_token _ rfl rfl, Token.scanAll_blanks _ blank]

omit blank in
theorem scanAll_string (done : List Token) (s : String) (rest : List Char) :
    Token.scanAll done (writeString s ++ rest) = Token.scanAll (.string s :: done) rest := by
  rw [writeString, List.cons_append, List.cons_append, List.append_assoc, List.singleton_append]
  exact Token.scanAll_token done rfl (Token.scan_string s rest)

theorem scanAll_writeItems {items : List Json} (each : ∀ item ∈ items, Scans layout item)
    (depth : Nat) (done : List Token) {rest : List Char} (stops : Stops rest) :
    Token.scanAll done (writeItems layout depth items ++ rest) =
      Token.scanAll ((itemTokens items).reverse ++ done) rest := by
  induction items generalizing done with
  | nil => rfl
  | cons item items ih =>
    obtain ⟨first, others⟩ := List.forall_mem_cons.mp each
    simp only [writeItems, itemTokens, List.cons_append, List.append_assoc]
    rw [Token.scanAll_token _ rfl rfl, Token.scanAll_blanks _ (blank.lineBreak depth),
      first depth _ _ (stops_writeItems layout depth items stops), ih others]
    simp

theorem scanAll_writeFields {fields : List (String × Json)}
    (each : ∀ field ∈ fields, Scans layout field.2) (depth : Nat) (done : List Token)
    {rest : List Char} (stops : Stops rest) :
    Token.scanAll done (writeFields layout depth fields ++ rest) =
      Token.scanAll ((fieldTokens fields).reverse ++ done) rest := by
  induction fields generalizing done with
  | nil => rfl
  | cons field fields ih =>
    obtain ⟨name, value⟩ := field
    obtain ⟨first, others⟩ := List.forall_mem_cons.mp each
    simp only [writeFields, fieldTokens, List.cons_append, List.append_assoc]
    rw [Token.scanAll_token _ rfl rfl, Token.scanAll_blanks _ (blank.lineBreak depth),
      scanAll_string, scanAll_colon blank,
      first depth _ _ (stops_writeFields layout depth fields stops), ih others]
    simp

/-- Text that was written is cut into the tokens of the document. -/
theorem Readable.scans {opened : Nat} {document : Json} (h : Readable opened document) :
    Scans layout document := by
  induction h with
  | null => exact fun _ done rest _ => Token.scanAll_token done rfl rfl
  | bool b =>
    intro depth done rest _
    cases b <;> exact Token.scanAll_token done rfl rfl
  | integer lower upper =>
    intro depth done rest stops
    obtain ⟨c, cs, text, printed, scanned⟩ := Token.scan_writeInt lower upper stops
    rw [write, Number.write, text]
    exact Token.scanAll_token done printed scanned
  | string s => exact fun _ done rest _ => scanAll_string done s rest
  | @array _ items _ _ ih =>
    intro depth done rest _
    cases items with
    | nil =>
      exact (Token.scanAll_token done rfl rfl).trans (Token.scanAll_token _ rfl rfl)
    | cons item items =>
      obtain ⟨first, others⟩ := List.forall_mem_cons.mp ih
      have stop := stops_append (blank.lineBreak depth) (stops_cons rest (c := ']') (by decide))
      simp only [write, tokens, List.cons_append, List.append_assoc, List.nil_append]
      rw [Token.scanAll_token _ rfl rfl, Token.scanAll_blanks _ (blank.lineBreak (depth + 1)),
        first _ _ _ (stops_writeItems layout _ items stop),
        scanAll_writeItems blank others _ _ stop, Token.scanAll_blanks _ (blank.lineBreak depth),
        Token.scanAll_token _ rfl rfl]
      simp
  | @object _ fields _ _ _ ih =>
    intro depth done rest _
    cases fields with
    | nil =>
      exact (Token.scanAll_token done rfl rfl).trans (Token.scanAll_token _ rfl rfl)
    | cons field fields =>
      obtain ⟨name, value⟩ := field
      obtain ⟨first, others⟩ := List.forall_mem_cons.mp ih
      have stop := stops_append (blank.lineBreak depth) (stops_cons rest (c := '}') (by decide))
      simp only [write, tokens, List.cons_append, List.append_assoc, List.nil_append]
      rw [Token.scanAll_token _ rfl rfl, Token.scanAll_blanks _ (blank.lineBreak (depth + 1)),
        scanAll_string, scanAll_colon blank,
        first _ _ _ (stops_writeFields layout _ fields stop),
        scanAll_writeFields blank others _ _ stop, Token.scanAll_blanks _ (blank.lineBreak depth),
        Token.scanAll_token _ rfl rfl]
      simp

end Scanning

end CampusQuery.Json
