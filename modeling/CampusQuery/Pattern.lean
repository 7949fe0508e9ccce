/-!
# Text patterns

A pattern is a text that may be open at its start, at its end or at both. It is written with an
asterisk at each open end; an asterisk anywhere else is not a pattern.
-/

namespace CampusQuery

structure Pattern where
  openStart : Bool
  text : String
  openEnd : Bool
  deriving DecidableEq

namespace Pattern

/-- Splits off an asterisk at the start. -/
def splitStart : List Char → Bool × List Char
  | '*' :: rest => (true, rest)
  | cs => (false, cs)

/-- Splits off an asterisk at the end. -/
def splitEnd (cs : List Char) : Bool × List Char :=
  if cs.getLast? = some '*' then (true, cs.dropLast) else (false, cs)

/-- The pattern of a written form. A lone asterisk opens the start only, which is enough to match
everything. -/
def ofText? (raw : String) : Option Pattern :=
  let (openStart, rest) := splitStart raw.toList
  let (openEnd, text) := splitEnd rest
  if '*' ∈ text then none else some ⟨openStart, .ofList text, openEnd⟩

/-- Whether a text occurs somewhere in another. -/
def occursIn (text : List Char) : List Char → Bool
  | [] => text.isEmpty
  | c :: rest => text.isPrefixOf (c :: rest) || occursIn text rest

def admits (pattern : Pattern) (value : String) : Bool :=
  match pattern.openStart, pattern.openEnd with
  | false, false => value = pattern.text
  | false, true => pattern.text.toList.isPrefixOf value.toList
  | true, false => pattern.text.toList.isSuffixOf value.toList
  | true, true => occursIn pattern.text.toList value.toList

theorem occursIn_iff {text value : List Char} : occursIn text value = true ↔ text <:+: value := by
  induction value with
  | nil => simp [occursIn]
  | cons c rest ih => simp [occursIn, ih, List.infix_cons_iff]

end Pattern

end CampusQuery
