import XQueryLexer.Proofs.Delimiter.Collecting
import XQueryLexer.Proofs.Delimiter.Evidence
import XQueryLexer.Proofs.Naming.Skeleton

/-! Which token of its source a diagnostic is about, and at which end of that token it stands. -/

namespace XQueryLexer

/-- A diagnostic about one of some tokens in a row. -/
inductive Diagnostic.Concerns (tokens : List Token) : Diagnostic → Prop
  /-- A closing bracket that closes nothing is reported where it starts. -/
  | stray {token : Token} {bracket : Bracket} (container : Option Token) (member : token ∈ tokens)
      (closes : token.state = .closing bracket) :
      Concerns tokens ⟨token.strayFault container, token.span.start⟩
  /-- What is not ended is reported where the last token stops. -/
  | ending {token : Token} {fault : Fault} (last : tokens.getLast? = some token)
      (unended : token.state.unended? token.value.toList = some fault) :
      Concerns tokens ⟨fault, token.span.stop⟩
  /-- A bracket that is never closed is reported where it starts. -/
  | unclosed {token : Token} {bracket : Bracket} (member : token ∈ tokens)
      (opens : token.state = .opening bracket) : Concerns tokens token.unclosed

mutual

/-- Only errors of a tree say something of themselves. -/
theorem Tree.exists_of_mem_strays {container : Option Token} {tree : Tree Token}
    {diagnostic : Diagnostic} (said : diagnostic ∈ tree.strays container) :
    ∃ token ∈ tree.items, token.error = true ∧
      ∃ around, diagnostic = ⟨token.strayFault around, token.span.start⟩ := by
  -- A token that is no error says nothing.
  have own {token : Token} (said : diagnostic ∈ (token.stray? container).toList) :
      token.error = true ∧ diagnostic = ⟨token.strayFault container, token.span.start⟩ := by
    unfold Token.stray? at said
    split at said
    · rename_i wrong
      exact ⟨wrong, List.mem_singleton.mp said⟩
    · cases said
  cases tree with
  | leaf token =>
    obtain ⟨wrong, same⟩ := own said
    exact ⟨token, List.mem_cons_self, wrong, container, same⟩
  | group opener inside =>
    rcases List.mem_append.mp said with head | inner
    · obtain ⟨wrong, same⟩ := own head
      exact ⟨opener, List.mem_cons_self, wrong, container, same⟩
    · obtain ⟨token, member, wrong⟩ := Forest.exists_of_mem_strays inner
      exact ⟨token, List.mem_cons_of_mem _ member, wrong⟩

/-- Only errors of a forest say something of themselves. -/
theorem Forest.exists_of_mem_strays {container : Option Token} {forest : Forest Token}
    {diagnostic : Diagnostic} (said : diagnostic ∈ Forest.strays container forest) :
    ∃ token ∈ Forest.items forest, token.error = true ∧
      ∃ around, diagnostic = ⟨token.strayFault around, token.span.start⟩ := by
  cases forest with
  | nil => cases said
  -- The diagnostic is said by the first tree or by a later one.
  | cons tree rest =>
    rcases List.mem_append.mp said with first | later
    · obtain ⟨token, member, wrong⟩ := Tree.exists_of_mem_strays first
      exact ⟨token, List.mem_append_left _ member, wrong⟩
    · obtain ⟨token, member, wrong⟩ := Forest.exists_of_mem_strays later
      exact ⟨token, List.mem_append_right _ member, wrong⟩

end

/-- A token that has opened a bracket is one of the tokens around an innermost scope. -/
theorem Nest.opener_mem_items {levels : List Level} {level : Level} (member : level ∈ levels)
    (inside : Forest Token) : level.opener ∈ Forest.items (around levels inside) := by
  induction levels generalizing inside with
  | nil => cases member
  | cons first outer ih =>
    rw [around_cons]
    rcases List.mem_cons.mp member with rfl | later
    · -- The innermost bracket is the last tree of the scope around it.
      have grown : Forest.items (level.fold inside) =
          Forest.items level.before ++ level.opener :: Forest.items inside := by
        simp [Level.fold, Forest.items, Tree.items]
      rw [items_around outer grown]
      simp
    · exact ih later _

section Source

variable {source : String} {options : Options} {token : Token} {earlier later : List Token}
  {diagnostic : Diagnostic} {fault : Fault}

/-- Nothing but a closing bracket of a source is an error. -/
theorem exists_closing_of_error (member : token ∈ Forest.items (analyse source options).forest)
    (wrong : token.error = true) : ∃ bracket : Bracket, token.state = .closing bracket := by
  -- The token is the head of a tree in some scope, and scopes have errors of this kind only.
  obtain ⟨scope, within, head⟩ := Forest.exists_scope_of_mem member
  obtain ⟨tree, placed, rfl⟩ := List.mem_map.mp head
  obtain ⟨container, nested⟩ := exists_wellNested_analyse within
  exact nested.error_closing placed wrong

/-- Every source has a nest that is told, with the shape of its tokens and with what is reported. -/
theorem Nest.exists_told_analyse (source : String) : ∃ nest : Nest, nest.Told ∧
    nest.forest = Forest.map Token.reset (analyse source).forest ∧
    (analyse source).diagnostics = nest.reports ++ (analyse source).forest.ending?.toList ++
      nest.levels.map Level.fault := by
  -- Reading the text keeps the nest told, and the forest of the source has its shape.
  obtain ⟨nest, told, nest_eq⟩ := Told.foldl_ofText 0 source.toList .initial rfl
  have shape : nest.forest = Forest.map Token.reset (analyse source).forest := by
    rw [map_reset_analyse, ofText]
    exact (congrArg Nest.forest nest_eq).symm
  refine ⟨nest, told, shape, ?_⟩
  rw [← Forest.ending?_reset, ← shape, analyse_diagnostics, ofText, reportUnclosed_eq]
  rw [show ({} : Options).collectDiagnostics = true from rfl, nest_eq]
  exact congrArg Nest.reports (if_pos told.collecting)

/-- Every diagnostic of a source is about one of its tokens. -/
theorem concerns_of_mem (reported : diagnostic ∈ (analyse source).diagnostics) :
    diagnostic.Concerns (Forest.items (analyse source).forest) := by
  obtain ⟨nest, told, shape, reported_eq⟩ := Nest.exists_told_analyse source
  rw [reported_eq] at reported
  rcases List.mem_append.mp reported with found | opened
  · rcases List.mem_append.mp found with stray | ended
    · -- What is reported on the way are the errors of the forest.
      rw [told.reports, shape] at stray
      have said : diagnostic ∈ Forest.strays none (analyse source).forest :=
        Forest.strays_reset none (analyse source).forest ▸ stray
      obtain ⟨token, member, wrong, container, rfl⟩ := Forest.exists_of_mem_strays said
      obtain ⟨bracket, closes⟩ := exists_closing_of_error member wrong
      exact .stray container member closes
    · obtain ⟨token, last, said⟩ := Option.bind_eq_some_iff.mp (Option.mem_toList.mp ended)
      obtain ⟨fault, unended, rfl⟩ := Option.map_eq_some_iff.mp said
      exact .ending last unended
  · -- The brackets that are left open are tokens of the forest too.
    obtain ⟨level, left, rfl⟩ := List.mem_map.mp opened
    have member : level.opener ∈ Forest.items nest.forest :=
      Nest.opener_mem_items left nest.inside
    rw [shape, Forest.items_map] at member
    obtain ⟨token, member, opener⟩ := List.mem_map.mp member
    have opens : token.state = .opening level.bracket := by
      rw [← told.opens level left, ← opener]
      rfl
    have said : level.fault = token.unclosed := by
      rw [Nest.Level.fault, ← opener]
      rfl
    exact said ▸ .unclosed member opens

/-- That something is not ended is reported exactly if the last token of the source shows it. -/
theorem exists_unended_iff (apart : fault.isStray = false)
    (other : ∀ text, fault ≠ .unclosedBracket text) :
    (∃ diagnostic ∈ (analyse source).diagnostics, diagnostic.fault = fault) ↔
      ∃ token ∈ (Forest.items (analyse source).forest).getLast?,
        token.state.unended? token.value.toList = some fault := by
  constructor
  · -- What a diagnostic concerns tells its fault, and only the end of the source has such a one.
    rintro ⟨diagnostic, reported, rfl⟩
    cases concerns_of_mem reported with
    | stray container member closes => cases container <;> cases apart
    | ending last unended => exact ⟨_, last, unended⟩
    | unclosed member opens => exact absurd rfl (other _)
  · -- The last token says it, and what it says is reported behind the strays.
    rintro ⟨token, last, unended⟩
    obtain ⟨nest, -, -, reported_eq⟩ := Nest.exists_told_analyse source
    refine ⟨⟨fault, token.span.stop⟩, ?_, rfl⟩
    have said : (analyse source).forest.ending? = some ⟨fault, token.span.stop⟩ := by
      rw [Forest.ending?, Option.mem_def.mp last, Option.bind_some, Token.ending?, unended]
      rfl
    simp [reported_eq, said]

/-- A token of a source shows that it is not ended exactly if it is the last one and this is
reported. -/
theorem unended?_iff_of_split (apart : fault.isStray = false)
    (other : ∀ text, fault ≠ .unclosedBracket text)
    (split : Forest.items (analyse source options).forest = earlier ++ token :: later) :
    token.state.unended? token.value.toList = some fault ↔
      later = [] ∧ ∃ diagnostic ∈ (analyse source).diagnostics, diagnostic.fault = fault := by
  rw [exists_unended_iff apart other, ← forest_analyse_options source options {}, split]
  by_cases last : later = []
  · simp [last]
  · -- What ends in front of other tokens is ended.
    refine iff_of_false ?_ fun ends => last ends.1
    have shown := Piece.ofText_later split
    obtain ⟨c, more, state, rest, -, ends, piece_eq, -⟩ :=
      Piece.exists_endsBefore shown (by simpa using last)
    have starts := LexState.starts_starting c (more ++ rest).head?
    rw [ends.class_eq] at starts
    have ended := starts.unended?_eq_none ends.extent_eq
    rw [List.take_left] at ended
    obtain ⟨value, state_eq⟩ := Piece.mk.inj piece_eq
    rw [value, state_eq, String.toList_ofList, ended]
    simp

end Source

end XQueryLexer
