import XQueryLexer.Proofs.Delimiter.Collecting
import XQueryLexer.Proofs.Delimiter.Reporting
import XQueryLexer.Proofs.Lexeme.Overlap
import XQueryLexer.Proofs.Naming.Skeleton

/-! Where the comments of a source end, compared with where whole delimiters would end them. -/

namespace XQueryLexer

/-- Only a comment in which something stays open says that a comment does not end. -/
theorem LexState.unended?_eq_unterminatedComment_iff {state : LexState} {text : List Char} :
    state.unended? text = some .unterminatedComment ↔
      state = .comment ∧ 0 < Extent.openBehind text := by
  -- The other classes report another fault, or none.
  cases state with
  | comment => simp [unended?]
  | quoted quote => simp [unended?]
  | uriLiteral => simp [unended?]
  | _ => simp [unended?]

/-- A comment is reported not to end exactly if the last token of the source is one in which
something stays open. -/
theorem exists_unterminatedComment_iff (source : String) :
    (∃ diagnostic ∈ (analyse source).diagnostics, diagnostic.fault = .unterminatedComment) ↔
      ∃ token ∈ (Forest.items (analyse source).forest).getLast?,
        token.state = .comment ∧ 0 < Extent.openBehind token.value.toList := by
  -- The general law of reports at the end of a source, for the fault of comments.
  simp only [← LexState.unended?_eq_unterminatedComment_iff]
  exact exists_unended_iff rfl (by simp)

/-- A comment that ends where the delimiters behind its first one end it if each of them takes up
both of its characters. If they do not end it, then the comment goes on to the end of the source,
where it is reported not to end. -/
def Token.EndsWhole (token : Token) (after : String) (diagnostics : List Diagnostic) : Prop :=
  match Extent.ofWhole? 0 (token.value ++ after).toList with
  | some reach => token.value.toList.length = reach
  | none => after = "" ∧ ∃ diagnostic ∈ diagnostics, diagnostic.fault = .unterminatedComment

/-- An ended comment stands between two delimiters, unless these share their colon and are all of
it. -/
theorem exists_body_iff {value : String} {more : List Char} {taken : Nat}
    (ends : Extent.ofComment? 0 ('(' :: ':' :: more) = some taken)
    (spelled : value.toList = ('(' :: ':' :: more).take taken) :
    (∃ body, value = "(:" ++ body ++ ":)") ↔ value ≠ "(:)" := by
  have size (body : String) : ("(:" ++ body ++ ":)").toList.length = body.toList.length + 4 := by
    simp [String.toList_append]
  -- With a body between them the delimiters have a character more than they have with a shared
  -- colon.
  have longer (body : String) : "(:" ++ body ++ ":)" ≠ "(:)" := by
    intro same
    have three := congrArg (fun text => text.toList.length) same
    simp only [size] at three
    have : "(:)".toList.length = 3 := by simp
    omega
  rcases Extent.eq_or_exists_body ends with shared | ⟨body, apart⟩
  · have all : value = "(:)" := String.ext (spelled.trans shared)
    refine iff_of_false ?_ (not_not_intro all)
    rintro ⟨body, same⟩
    exact longer body (same.symm.trans all)
  · have around : value = "(:" ++ String.ofList body ++ ":)" := by
      apply String.ext
      rw [spelled, apart]
      simp
    exact iff_of_true ⟨_, around⟩ (around ▸ longer _)

/-- A comment in front of the other pieces of a text starts with an opening delimiter, behind whose
bracket one comment is open. -/
theorem Piece.exists_inside_of_comment {piece : Piece} {others : List Piece} {text : List Char}
    (shown : Piece.ofText text = piece :: others) (comment : piece.state = .comment) :
    ∃ more, text = '(' :: ':' :: more ∧
      let extent := (Extent.ofComment? 1 (':' :: more)).getD (':' :: more).length
      piece.value.toList = '(' :: (':' :: more).take extent ∧
        others = Piece.ofText ((':' :: more).drop extent) := by
  cases text with
  | nil => simp [Piece.ofText] at shown
  | cons c rest =>
    rw [Piece.ofText] at shown
    obtain ⟨rfl, rfl⟩ := List.cons.inj shown
    have starts := LexState.starts_starting c rest.head?
    -- Only the opening delimiter leads to a comment.
    rw [show LexState.starting c rest.head? = .comment from comment] at starts ⊢
    cases starts with
    | comment round colon =>
      obtain ⟨more, rfl⟩ := List.head?_eq_some_iff.mp colon
      subst round
      exact ⟨more, rfl, String.toList_ofList, rfl⟩

section Source

variable {source : String} {options : Options} {earlier later : List Token} {token : Token}

/-- A comment of a source starts with an opening delimiter, and it ends where the count of
delimiters says or with the source. -/
theorem exists_ofComment?_of_split
    (split : Forest.items (analyse source options).forest = earlier ++ token :: later)
    (comment : token.state = .comment) :
    ∃ more, (token.value ++ Token.text later).toList = '(' :: ':' :: more ∧
      match Extent.ofComment? 0 ('(' :: ':' :: more) with
      | some taken => token.value.toList = ('(' :: ':' :: more).take taken ∧
          Extent.openBehind token.value.toList = 0
      | none => later = [] ∧ 0 < Extent.openBehind token.value.toList := by
  -- The text from the token on is a source of its own, and the token is its first piece.
  have shown := Piece.ofText_later split
  rw [Token.text_cons, List.map_cons] at shown
  obtain ⟨more, text_eq, value, others⟩ := Piece.exists_inside_of_comment shown comment
  have value_eq : token.value.toList = '(' :: (':' :: more).take _ := value
  refine ⟨more, text_eq, ?_⟩
  -- Behind the opening bracket the depth is one, where the count of the scanner starts.
  rw [value_eq, Extent.ofComment?, if_pos (by simp), Nat.zero_add, Extent.openBehind]
  cases extent : Extent.ofComment? 1 (':' :: more) with
  | some taken =>
    -- An end is found where as many delimiters close as open.
    have balanced := Extent.balance_of_ofComment? (Nat.le_refl 1) extent
    simp only [Option.map_some, Option.getD_some, List.take_succ_cons, true_and]
    exact_mod_cast balanced
  | none =>
    -- Without an end the comment takes the whole text, so that no token is left for later.
    have positive := Extent.balance_pos_of_ofComment? (Nat.le_refl 1) extent
    rw [extent, Option.getD_none, List.drop_length, Piece.ofText] at others
    simp only [Option.map_none, Option.getD_none, List.take_length]
    exact ⟨List.map_eq_nil_iff.mp others, by exact_mod_cast positive⟩

/-- A comment ends where whole delimiters would end it, or else it goes on to the end of the source
and is reported there, unless it is ended and two delimiters in it share a colon. Where a comment is
ended its first and its last delimiter share one only if nothing else is in it. -/
theorem endsWhole_iff
    (split : Forest.items (analyse source options).forest = earlier ++ token :: later)
    (comment : token.state = .comment) :
    (token.EndsWhole (Token.text later) (analyse source).diagnostics ↔
      ¬(sharedColon <:+: token.value.toList ∧ Extent.openBehind token.value.toList = 0)) ∧
    (Extent.openBehind token.value.toList = 0 →
      ((∃ body, token.value = "(:" ++ body ++ ":)") ↔ token.value ≠ "(:)")) := by
  obtain ⟨more, text_eq, ends⟩ := exists_ofComment?_of_split split comment
  rw [forest_analyse_options source options {}] at split
  -- What is reported of the end of the source is about this comment if it is the last token.
  have reported : later = [] →
      ((∃ diagnostic ∈ (analyse source).diagnostics, diagnostic.fault = .unterminatedComment) ↔
        0 < Extent.openBehind token.value.toList) := by
    rintro rfl
    rw [exists_unterminatedComment_iff, split]
    simp [comment]
  rw [Token.EndsWhole, text_eq]
  split at ends
  · rename_i taken extent
    -- The count of the code ends the comment, so it is to be compared with that of whole
    -- delimiters.
    obtain ⟨value, ended⟩ := ends
    have bounds := Extent.ofComment?_bounds extent
    have whole := Extent.ofWhole?_iff extent
    rw [← value] at whole
    have length : token.value.toList.length = taken := by
      rw [value, List.length_take]
      omega
    refine ⟨?_, fun _ => ?_⟩
    · rw [and_iff_left ended, ← whole]
      cases reached : Extent.ofWhole? 0 ('(' :: ':' :: more) with
      | some reach => simp [length, eq_comm]
      | none =>
        -- At the end of the source the comment would be reported, but it is ended.
        refine iff_of_false ?_ (by simp)
        rintro ⟨blank, said⟩
        have nothing := @Piece.ofText_later source {} (earlier ++ [token]) later (by simp [split])
        rw [blank, String.toList_empty, Piece.ofText] at nothing
        have unended := (reported (List.map_eq_nil_iff.mp nothing.symm)).mp said
        omega
    · exact exists_body_iff extent value
  · rename_i extent
    -- The count of the code finds no end, and then whole delimiters have none either.
    obtain ⟨rfl, unended⟩ := ends
    rw [Extent.ofWhole?_eq_none extent]
    refine ⟨iff_of_true ⟨rfl, (reported rfl).mpr unended⟩ fun shared => ?_, fun ended => ?_⟩
    · omega
    · omega

end Source

/-- A comment in another one takes up both characters of each of its delimiters. -/
theorem endsWhole_of_nested :
    Forest.items (analyse "(:a(:b:):)c").forest =
        [] ++ .ofState "(:a(:b:):)" .comment ⟨0, 10⟩ :: [.ofState "c" (.word .bare) ⟨10, 11⟩] ∧
      (Token.ofState "(:a(:b:):)" .comment ⟨0, 10⟩).EndsWhole "c"
        (analyse "(:a(:b:):)c").diagnostics ∧
      ∃ body, "(:a(:b:):)" = "(:" ++ body ++ ":)" := by
  have items : Forest.items (analyse "(:a(:b:):)c").forest =
      [] ++ .ofState "(:a(:b:):)" .comment ⟨0, 10⟩ :: [.ofState "c" (.word .bare) ⟨10, 11⟩] := by
    decide +kernel
  obtain ⟨whole, body⟩ := endsWhole_iff items rfl
  -- No colon stands between two delimiters here, and none stays open.
  have apart : ¬sharedColon <:+: "(:a(:b:):)".toList := by decide +kernel
  have ended : Extent.openBehind "(:a(:b:):)".toList = 0 := by decide +kernel
  have longer : "(:a(:b:):)" ≠ "(:)" := by decide +kernel
  refine ⟨items, ?_, (body ended).mpr longer⟩
  have text : Token.text [.ofState "c" (.word .bare) ⟨10, 11⟩] = "c" := by decide +kernel
  rw [text] at whole
  exact whole.mpr fun shared => apart shared.1

/-- A colon that is shared by the two delimiters ends a comment that whole delimiters would end only
behind the next colon, or not at all. -/
theorem not_endsWhole_of_shared :
    Forest.items (analyse "(:):)").forest =
        [.ofState "(:)" .comment ⟨0, 3⟩, .ofState ":" .separator ⟨3, 4⟩,
          { Token.ofState ")" (.closing .round) ⟨4, 5⟩ with error := true }] ∧
      ¬(Token.ofState "(:)" .comment ⟨0, 3⟩).EndsWhole ":)" (analyse "(:):)").diagnostics ∧
      Forest.items (analyse "(:)").forest = [.ofState "(:)" .comment ⟨0, 3⟩] ∧
      ¬(Token.ofState "(:)" .comment ⟨0, 3⟩).EndsWhole "" (analyse "(:)").diagnostics := by
  -- Whole delimiters end the first comment two characters later, and never the second one.
  have late : Extent.ofWhole? 0 ("(:)" ++ ":)").toList = some 5 := by decide +kernel
  have never : Extent.ofWhole? 0 ("(:)" ++ "").toList = none := by decide +kernel
  have nothing : (analyse "(:)").diagnostics = [] := by decide +kernel
  refine ⟨by decide +kernel, ?_, by decide +kernel, ?_⟩
  · simp only [Token.EndsWhole, Token.ofState, late]
    decide
  · simp only [Token.EndsWhole, Token.ofState, never, nothing]
    simp

end XQueryLexer
