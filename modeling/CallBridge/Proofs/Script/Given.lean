import CallBridge.Script.Parser.Module

/-!
# Scripts that are given

What a given script is read as can be found by evaluation. This goes by the list of its characters:
evaluation takes a long text apart slowly. Main statement: what is evaluated of the characters of a
text holds of the program that the text is read as (`exists_program_of_any`).
-/

namespace CallBridge

/-! ### Outcomes -/

/-- What holds of the outcome of a reading that succeeds. -/
theorem exists_ok_of_any {ε α : Type} {x : Except ε α} {p : α → Bool} (h : x.toOption.any p) :
    ∃ a, x = .ok a ∧ p a := by
  cases x with
  | error e => cases h
  | ok a => exact ⟨a, rfl, h⟩

theorem exists_ok_of_isSome {ε α : Type} {x : Except ε α} (h : x.toOption.isSome) :
    ∃ a, x = .ok a := by
  cases x with
  | error e => cases h
  | ok a => exact ⟨a, rfl⟩

theorem exists_error_of_isNone {ε α : Type} {x : Except ε α} (h : x.toOption.isNone) :
    ∃ e, x = .error e := by
  cases x with
  | error e => exact ⟨e, rfl⟩
  | ok a => cases h

/-! ### Characters -/

/-- The characters of a text in two parts. -/
theorem toList_append_eq {s t : String} {cs ds : List Char} (hs : s.toList = cs)
    (ht : t.toList = ds) : (s ++ t).toList = cs ++ ds := by
  rw [String.toList_append, hs, ht]

namespace Script

/-- The reading of a script from its characters. -/
def readScript (dialect : Dialect) (cs : List Char) : Except Failure Program := do
  let (hashbang, rest) := splitHashbang cs
  let skipped := cs.length - rest.length
  let blank := List.replicate (CallBridge.Text.bytes (cs.take skipped)) ' '
  let (tokens, comments) := tokenize (blank ++ rest)
  let tree ← Parser.run dialect tokens fun r =>
    Parser.program r hashbang (CallBridge.Text.bytes cs)
  return ⟨tree, comments⟩

variable {dialect : Dialect} {source : String} {cs : List Char}

theorem parseScript_of_toList (h : source.toList = cs) :
    parseScript dialect source = readScript dialect cs := by
  subst h
  rfl

theorem parseScript_ofList (dialect : Dialect) (cs : List Char) :
    parseScript dialect (String.ofList cs) = readScript dialect cs :=
  parseScript_of_toList String.toList_ofList

theorem exists_program_of_any (dialect : Dialect) (source : String) (hsource : source.toList = cs)
    {p : List Char → Program → Bool} (h : (readScript dialect cs).toOption.any (p cs)) :
    ∃ program, parseScript dialect source = .ok program ∧ p source.toList program := by
  subst hsource
  exact exists_ok_of_any h

end Script

end CallBridge
