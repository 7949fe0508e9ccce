import CampusQuery.Json.Number

/-!
# The tokens of JSON text

Text is cut into punctuation, names, numbers and strings; blanks separate them and are dropped.
A string holds no raw control character, and an escaped surrogate counts only as half of a pair.
`length_scan`: a token takes at least one character.
-/

namespace CampusQuery.Json

inductive Token
  | openArray
  | closeArray
  | openObject
  | closeObject
  | comma
  | colon
  | null
  | bool (b : Bool)
  | number (n : Number)
  | string (s : String)

namespace Token

/-- The four characters that may stand between tokens. -/
def isBlank (c : Char) : Bool := c = ' ' || c = '\n' || c = '\t' || c = '\r'

def hexDigit? (c : Char) : Option Nat :=
  if c.isDigit then some (c.toNat - '0'.toNat)
  else if 'a' ≤ c ∧ c ≤ 'f' then some (c.toNat - 'a'.toNat + 10)
  else if 'A' ≤ c ∧ c ≤ 'F' then some (c.toNat - 'A'.toNat + 10)
  else none

/-- The number that four hexadecimal digits stand for. -/
def hexUnit? (a b c d : Char) : Option Nat := do
  return (((← hexDigit? a) * 16 + (← hexDigit? b)) * 16 + (← hexDigit? c)) * 16 + (← hexDigit? d)

def isLeadingSurrogate (unit : Nat) : Bool := 0xD800 ≤ unit ∧ unit < 0xDC00

def isTrailingSurrogate (unit : Nat) : Bool := 0xDC00 ≤ unit ∧ unit < 0xE000

/-- The character that a pair of surrogates stands for. -/
def ofSurrogates (leading trailing : Nat) : Char :=
  Char.ofNat (0x10000 + (leading - 0xD800) * 0x400 + (trailing - 0xDC00))

/-- The character that a letter stands for after a backslash. -/
def escape? : Char → Option Char
  | '"' => some '"'
  | '\\' => some '\\'
  | '/' => some '/'
  | 'b' => some '\x08'
  | 'f' => some '\x0c'
  | 'n' => some '\n'
  | 'r' => some '\r'
  | 't' => some '\t'
  | _ => none

/-- Reads a string up to its closing quote; `done` holds the characters before, last one first. -/
def scanString (done : List Char) : List Char → Option (List Char × List Char)
  | [] => none
  | '"' :: rest => some (done.reverse, rest)
  | '\\' :: 'u' :: a :: b :: c :: d :: rest =>
    match hexUnit? a b c d with
    | none => none
    | some unit =>
      if isLeadingSurrogate unit then
        match rest with
        | '\\' :: 'u' :: e :: f :: g :: h :: rest =>
          match hexUnit? e f g h with
          | none => none
          | some trailing =>
            if isTrailingSurrogate trailing then
              scanString (ofSurrogates unit trailing :: done) rest
            else none
        | _ => none
      else if isTrailingSurrogate unit then none
      else scanString (Char.ofNat unit :: done) rest
  | '\\' :: letter :: rest =>
    match escape? letter with
    | none => none
    | some c => scanString (c :: done) rest
  | c :: rest => if c = '\\' ∨ c < ' ' then none else scanString (c :: done) rest

/-- The token that starts with the given character, and the text after it. -/
def scan (c : Char) (rest : List Char) : Option (Token × List Char) :=
  match c, rest with
  | '[', _ => some (openArray, rest)
  | ']', _ => some (closeArray, rest)
  | '{', _ => some (openObject, rest)
  | '}', _ => some (closeObject, rest)
  | ',', _ => some (comma, rest)
  | ':', _ => some (colon, rest)
  | '"', _ => (scanString [] rest).map fun (s, rest) => (string (.ofList s), rest)
  | 'n', 'u' :: 'l' :: 'l' :: rest => some (null, rest)
  | 't', 'r' :: 'u' :: 'e' :: rest => some (bool true, rest)
  | 'f', 'a' :: 'l' :: 's' :: 'e' :: rest => some (bool false, rest)
  | _, _ => (scanNumber (c :: rest)).map fun (n, rest) => (number n, rest)

theorem length_scanString {done cs s rest : List Char}
    (h : scanString done cs = some (s, rest)) : rest.length < cs.length := by
  fun_induction scanString done cs <;> simp_all <;> omega

theorem length_scan {c : Char} {cs rest : List Char} {token : Token}
    (h : scan c cs = some (token, rest)) : rest.length ≤ cs.length := by
  unfold scan at h
  split at h <;> simp only [Option.some.injEq, Prod.mk.injEq, Option.map_eq_some_iff,
    Prod.exists] at h
  case h_7 =>
    obtain ⟨_, _, hs, _, rfl⟩ := h
    exact Nat.le_of_lt (length_scanString hs)
  case h_11 =>
    obtain ⟨_, _, hs, _, rfl⟩ := h
    exact Nat.le_of_lt_succ (length_scanNumber hs)
  all_goals
    obtain ⟨_, rfl⟩ := h
    grind

/-- The tokens of a text; `done` holds those before, last one first. -/
def scanAll (done : List Token) : List Char → Option (List Token)
  | [] => some done.reverse
  | c :: rest =>
    if isBlank c then scanAll done rest
    else
      match _taken : scan c rest with
      | none => none
      | some (token, rest) => scanAll (token :: done) rest
termination_by cs => cs.length
decreasing_by
  · simp
  · have := length_scan _taken
    simp only [List.length_cons]
    omega

end Token

end CampusQuery.Json
