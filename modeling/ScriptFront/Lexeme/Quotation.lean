namespace ScriptFront.Quotation

-- What is left of a quotation behind its opening quote: everything up to and including the
-- closing quote, then the rest of the input. A backslash takes the next character with it, so
-- an escaped quote does not close. A backslash before a line feed takes nothing, and no
-- quotation holds it.
def close? : List Char → Option (List Char × List Char)
  | [] => none
  | '"' :: rest => some (['"'], rest)
  | ['\\'] => none
  | '\\' :: c :: rest =>
    if c = '\n' then none else (close? rest).map fun (body, rest) => ('\\' :: c :: body, rest)
  | c :: rest => (close? rest).map fun (body, rest) => (c :: body, rest)

-- The text a quotation stands for. A backslash with a character that is not escapable is kept.
def unescape : List Char → List Char
  | [] => []
  | '\\' :: 'n' :: rest => '\n' :: unescape rest
  | '\\' :: 't' :: rest => '\t' :: unescape rest
  | '\\' :: 'r' :: rest => '\r' :: unescape rest
  | '\\' :: '\\' :: rest => '\\' :: unescape rest
  | '\\' :: '"' :: rest => '"' :: unescape rest
  | c :: rest => c :: unescape rest

-- What stands between the quotes.
def inner (quotation : List Char) : List Char :=
  quotation.tail.dropLast

theorem close?_append {input body rest : List Char} (h : close? input = some (body, rest)) :
    body ++ rest = input := by
  fun_induction close? input generalizing body rest with
  | case1 => simp at h
  | case2 =>
    obtain ⟨rfl, rfl⟩ := Prod.mk.inj (Option.some.inj h)
    rfl
  | case3 => simp at h
  | case4 => simp at h
  | case5 c rest hc ih =>
    obtain ⟨⟨body', rest'⟩, hclose, heq⟩ := Option.map_eq_some_iff.1 h
    obtain ⟨rfl, rfl⟩ := Prod.mk.inj heq
    simp [ih hclose]
  | case6 c rest _ _ _ ih =>
    obtain ⟨⟨body', rest'⟩, hclose, heq⟩ := Option.map_eq_some_iff.1 h
    obtain ⟨rfl, rfl⟩ := Prod.mk.inj heq
    simp [ih hclose]

end ScriptFront.Quotation
