import Mathlib.Data.List.Induction
import Mathlib.Data.List.TakeWhile
import XQueryLexer.Proofs.Lexeme.Spacing
import XQueryLexer.Proofs.Naming.Skeleton
import XQueryLexer.Proofs.Nesting.Inside

/-! Keywords in a row are operands and operators by turns. -/

namespace XQueryLexer

/-- The role of the word at a place, which is counted from zero, among keywords in a row: every
other word is an operator, and what stands behind `as` and `of` as an operator is a type. -/
def Kind.inRun (words : List String) (place : Nat) : Kind :=
  if place % 2 = 1 then .operator
  else if 0 < place ∧ (words[place - 1]? = some "as" ∨ words[place - 1]? = some "of") then
    .simpleType
  else .plainName

namespace Kind

/-- The role of a word does not depend on the words behind it. -/
theorem inRun_append {words : List String} {place : Nat} (inside : place ≤ words.length)
    (more : List String) : inRun (words ++ more) place = inRun words place := by
  unfold inRun
  -- Only the word right before the place counts, which is not behind it.
  by_cases first : place = 0
  · subst first
    rfl
  · rw [List.getElem?_append_left (by omega)]

/-- Behind an operator stands a type or a name, and behind both of these an operator. -/
theorem inRun_succ {words : List String} {place : Nat} {word : String}
    (before : words[place]? = some word) : inRun words (place + 1) =
      if inRun words place = .operator then (afterOperator? word).getD .plainName
      else .operator := by
  have type : (afterOperator? word).getD .plainName =
      if word = "as" ∨ word = "of" then .simpleType else .plainName := by
    simp only [afterOperator?, Bool.or_eq_true, decide_eq_true_eq]
    split <;> rfl
  have parity : inRun words place = .operator ↔ place % 2 = 1 := by
    unfold inRun
    split_ifs with odd <;> simp [odd]
  -- The places take turns, and only behind an operator the word before counts.
  rcases Nat.mod_two_eq_zero_or_one place with even | odd
  · have next : (place + 1) % 2 = 1 := by omega
    rw [if_neg (by rw [parity]; omega), inRun, if_pos next]
  · have next : (place + 1) % 2 ≠ 1 := by omega
    rw [if_pos (parity.mpr odd), type, inRun, if_neg next]
    simp [before]

/-- A word among keywords in a row is an operator, a name or a type. -/
theorem inRun_cases (words : List String) (place : Nat) : inRun words place = .operator ∨
    inRun words place = .plainName ∨ inRun words place = .simpleType := by
  -- One case for each branch of the definition.
  unfold inRun
  split_ifs <;> simp

end Kind

namespace Token

/-- A name that is a keyword, whatever its role is. -/
structure IsKeyword (token : Token) : Prop where
  /-- The token is a name. -/
  state_eq : token.state = .word .bare
  /-- Its value is a keyword. -/
  mem : token.value ∈ keywords

/-- A keyword is one whatever its role is. -/
theorem IsKeyword.relabel {token : Token} (keyword : token.IsKeyword) (kind : Option Kind) :
    (token.relabel kind).IsKeyword :=
  ⟨keyword.state_eq, keyword.mem⟩

/-- A keyword is one before its context is known. -/
theorem IsKeyword.reset {token : Token} (keyword : token.IsKeyword) : token.reset.IsKeyword :=
  ⟨keyword.state_eq, keyword.mem⟩

/-- No keyword starts an operator of two words. -/
theorem isWordPair_keyword {first : String} (keyword : first ∈ keywords) (second : String) :
    isWordPair first second = false := by
  -- The first words of the pairs are no keywords by themselves.
  have apart : ∀ word ∈ keywords, word ≠ "cast" ∧ word ≠ "castable" ∧ word ≠ "instance" := by
    decide
  obtain ⟨cast, castable, inst⟩ := apart first keyword
  simp [isWordPair, wordPairs, cast, castable, inst]

/-- A keyword leaves the keyword before it as it is, and takes its own role after that of the other
one. -/
theorem meet_keyword {previous token : Token} (before : previous.IsKeyword)
    (keyword : token.IsKeyword) (fresh : token.reset = token)
    (role : previous.kind = .operator ∨ previous.kind = .plainName ∨
      previous.kind = .simpleType) :
    meet (some previous) token = (some previous, token.relabel (some
      (if previous.kind = .operator then (Kind.afterOperator? previous.value).getD .plainName
      else .operator))) := by
  have own : token.kind = .plainName := kind_of_fresh fresh keyword.state_eq
  have listed : Kind.ofKeyword? token.value = some .operator := by
    simp [Kind.ofKeyword?, keyword.mem]
  -- A name settles nothing.
  have settled : previous.settledBy? token = none := by
    simp [settledBy?, keyword.state_eq]
  have labels : token.labelsAfter previous = .currentOnly
      (if previous.kind = .operator then Kind.afterOperator? previous.value
      else some .operator) := by
    simp only [labelsAfter, keyword.state_eq, before.state_eq, isWordPair_keyword before.mem]
    rcases role with role | role | role <;> simp [role, listed]
  simp only [meet, settled, Option.map_some, relabel_none, Option.getD_some, labels,
    Labels.currentOnly]
  split
  · simp [relabel, own]
  · rfl

/-- A closing bracket leaves the token before it as it is. -/
theorem followedBy_closing {next : Token} {bracket : Bracket}
    (closes : next.state = .closing bracket) (token : Token) :
    token.followedBy (some next) = token := by
  -- Of all real tokens behind a name only a few settle it, and a closing bracket is none of them.
  have settled : token.settledBy? next = none := by
    simp [settledBy?, closes]
  have labels (previous : Token) : next.labelsAfter previous = .none := by
    simp [labelsAfter, closes]
  simp [followedBy, meet, settled, labels, Labels.none]

/-- Keywords in a row with their roles. -/
def inRun (tokens : List Token) : List Token :=
  tokens.mapIdx fun place token =>
    token.relabel (some (Kind.inRun (tokens.map Token.value) place))

/-- One more keyword gets its role behind the others, which keep theirs. -/
theorem inRun_concat (tokens : List Token) (token : Token) :
    inRun (tokens ++ [token]) = inRun tokens ++
      [token.relabel (some (Kind.inRun (tokens.map Token.value) tokens.length))] := by
  -- A role looks back only, so that the token at the end changes none of those before it.
  have role {place : Nat} (inside : place ≤ tokens.length) :
      Kind.inRun ((tokens ++ [token]).map Token.value) place =
        Kind.inRun (tokens.map Token.value) place := by
    rw [List.map_append, Kind.inRun_append (by simpa using inside)]
  rw [inRun, List.mapIdx_concat, role (Nat.le_refl _)]
  congr 1
  refine List.mapIdx_eq_mapIdx_iff.mpr fun place inside => ?_
  rw [role (Nat.le_of_lt inside)]

/-- A keyword that comes behind others in a row takes its role there, and leaves them as they
are. -/
theorem meet_inRun (tokens : List Token) {token : Token}
    (keywords : ∀ other ∈ tokens, other.IsKeyword) (keyword : token.IsKeyword)
    (fresh : token.reset = token) : meet (inRun tokens).getLast? token =
      ((inRun tokens).getLast?, token.relabel (some
        (Kind.inRun (tokens.map Token.value) tokens.length))) := by
  rcases tokens.eq_nil_or_concat with rfl | ⟨earlier, last, rfl⟩
  · -- At the start of a scope a keyword is a name.
    have labels : token.labelsAfter .scopeStart = .none := by
      simp [labelsAfter, scopeStart, ofState]
    have own : token.kind = .plainName := kind_of_fresh fresh keyword.state_eq
    simp [inRun, meet, labels, Labels.none, Kind.inRun, relabel, own]
  · -- Elsewhere it meets the keyword before it, which has its role already.
    rw [List.concat_eq_append] at keywords ⊢
    have before : last.IsKeyword := keywords last (by simp)
    have found : ((earlier ++ [last]).map Token.value)[earlier.length]? = some last.value := by
      simp
    have role := Kind.inRun_succ found
    rw [List.map_append, Kind.inRun_append (List.length_map _).ge, ← List.map_append] at role
    have met := meet_keyword (before.relabel (some (Kind.inRun
      (earlier.map Token.value) earlier.length))) keyword fresh (Kind.inRun_cases _ _)
    rw [inRun_concat, List.getLast?_concat, met, List.length_append, List.length_singleton, role]
    rfl

end Token

/-- A list is what is before its last item, if it has one, and that item. -/
theorem dropLast_append_toList {α : Type} (items : List α) :
    items.dropLast ++ items.getLast?.toList = items := by
  -- Lists are taken apart at their end.
  rcases items.eq_nil_or_concat with rfl | ⟨front, last, rfl⟩
  · rfl
  · rw [List.concat_eq_append, List.dropLast_concat, List.getLast?_concat, Option.toList_some]

namespace Pass

/-- A pass over keywords that stand first in their scope gives them their roles in the row. -/
theorem foldl_keywords (tokens : List Token) (keyword : ∀ token ∈ tokens, token.IsKeyword)
    (fresh : ∀ token ∈ tokens, token.reset = token) :
    tokens.foldl read start =
      ofSplit (Token.inRun tokens).dropLast (Token.inRun tokens).getLast? [] := by
  -- Each keyword meets the one before it, which has its last role by then.
  induction tokens using List.reverseRecOn with
  | nil => rfl
  | append_singleton tokens token ih =>
    obtain ⟨earlier, later⟩ := List.forall_mem_append.mp keyword
    obtain ⟨before, after⟩ := List.forall_mem_append.mp fresh
    have own : token.IsKeyword := later token (by simp)
    have real (kind : Option Kind) : (token.relabel kind).isReal = true := by
      show token.state.isReal = true
      rw [own.state_eq]
      rfl
    rw [List.foldl_append, ih earlier before, List.foldl_cons, List.foldl_nil, read_ofSplit,
      Token.meet_inRun tokens earlier own (after token (by simp)), push_ofSplit_real (real _),
      Token.inRun_concat, List.dropLast_concat, List.getLast?_concat, List.append_nil,
      dropLast_append_toList]

/-- A pass leaves all tokens so far as they are where it goes on with a closing bracket, or with
nothing but layout. -/
theorem exists_behind {front : List Token} {kept : Option Token} {later : List Token}
    (out : ∀ next ∈ later.find? Token.isReal, ∃ bracket : Bracket,
      next.state = .closing bracket) :
    ∃ behind, (later.foldl read (ofSplit front kept [])).tokens =
      front ++ kept.toList ++ behind := by
  -- The next real token is the only one that could still change the latest one.
  obtain ⟨behind, tokens⟩ := @exists_tokens_foldl front [] kept later
  have same : kept.map (·.followedBy (later.find? Token.isReal)) = kept := by
    cases next : later.find? Token.isReal with
    | none => cases kept <;> rfl
    | some found =>
      obtain ⟨bracket, closes⟩ := out found next
      cases kept <;> simp [Token.followedBy_closing closes]
  exact ⟨behind, by rw [tokens, same, List.append_nil]⟩

end Pass

/-- A closing bracket is real, so that it leads out of a scope without the layout too. -/
theorem LeadsOut.closing_of_find? {tokens : List Token} (out : LeadsOut tokens) :
    ∀ next ∈ ((tokens.filter Token.isReal).map Token.reset).find? Token.isReal,
      ∃ bracket : Bracket, next.state = .closing bracket := by
  cases tokens with
  | nil => simp
  | cons token rest =>
    obtain ⟨bracket, closes⟩ := out token rfl
    -- The bracket at the head is real, so the filter keeps it first and the search stops at it.
    have own : token.isReal = true := by simp [Token.isReal, closes, LexState.isReal]
    have again : token.reset.isReal = true := own
    rw [List.filter_cons_of_pos own, List.map_cons, List.find?_cons_of_pos again]
    rintro next ⟨⟩
    exact ⟨bracket, closes⟩

/-- Keywords that are the first real tokens of a scope have their roles in the row, if nothing or a
closing bracket is behind them. -/
theorem Labelled.eq_inRun {scope : Forest Token} (labelled : Labelled scope)
    {run more : List Token} (heads_eq : scope.heads = run ++ more) (out : LeadsOut more)
    (keyword : ∀ token ∈ run.filter Token.isReal, token.IsKeyword) :
    run.filter Token.isReal = Token.inRun ((run.filter Token.isReal).map Token.reset) := by
  -- Layout has no part in the pass, and no role is given any more where it leads out of the row.
  have real (tokens : List Token) : (tokens.map Token.reset).filter Token.isReal =
      (tokens.filter Token.isReal).map Token.reset :=
    List.filter_map
  have passed := Pass.through_filter (scope.heads.map Token.reset)
  rw [← show scope.heads = _ from labelled, real, heads_eq, List.filter_append, List.map_append,
    Pass.through, List.foldl_append] at passed
  generalize run.filter Token.isReal = words at passed keyword ⊢
  have first := Pass.foldl_keywords (words.map Token.reset)
    (List.forall_mem_map.mpr fun token member => (keyword token member).reset)
    Token.reset_of_mem_map
  rw [first] at passed
  obtain ⟨behind, tokens⟩ := @Pass.exists_behind (Token.inRun (words.map Token.reset)).dropLast
    (Token.inRun (words.map Token.reset)).getLast? _ out.closing_of_find?
  rw [tokens, dropLast_append_toList] at passed
  have length_eq : (Token.inRun (words.map Token.reset)).length = words.length := by
    simp [Token.inRun]
  exact (List.append_inj_left passed length_eq).symm

/-- A token that is one of some names is a name with that value. -/
theorem Token.of_piece_mem {token : Token} {words : List String}
    (member : token.piece ∈ words.map Piece.ofName) :
    token.state = .word .bare ∧ token.value ∈ words := by
  -- Class and value of the token are those of the piece of a name.
  obtain ⟨word, listed, same⟩ := List.mem_map.mp member
  have value_eq : word = token.value := congrArg Piece.value same
  exact ⟨(congrArg Piece.state same).symm, value_eq ▸ listed⟩

/-- Tokens that start with names, whatever layout is between these, are cut where they lead out
behind the names. -/
theorem exists_run_of_pieces {later : List Token} {words : List String} {others : List Piece}
    (pieces : (later.map Token.piece).filter Piece.isReal = words.map Piece.ofName ++ others)
    (ends : ∀ piece ∈ others.head?, ∃ bracket : Bracket, piece.state = .closing bracket) :
    ∃ run more, later = run ++ more ∧ LeadsOut more ∧
      (∀ token ∈ run, token.state.isBracket = false) ∧
      (run.filter Token.isReal).map Token.piece = words.map Piece.ofName := by
  have isReal : Piece.isReal ∘ Token.piece = Token.isReal := rfl
  rw [List.filter_map, isReal] at pieces
  -- The cut of the real pieces is a cut of the tokens: real tokens and layout in front of it are
  -- names and what stands between them.
  obtain ⟨names, back, found, shown, rfl⟩ := List.map_eq_append_iff.mp pieces
  obtain ⟨front, tail, rfl, rfl, rfl⟩ := List.filter_eq_append_iff.mp found
  have layout {token : Token} (hidden : token.isReal = false) : token.state.isBracket = false := by
    cases state : token.state <;> simp_all [Token.isReal, LexState.isReal, LexState.isBracket]
  -- The layout behind the last name belongs to the names, and what is behind it leads out.
  refine ⟨front ++ tail.takeWhile (!·.isReal), tail.dropWhile (!·.isReal), ?_, ?_, ?_, ?_⟩
  · rw [List.append_assoc, List.takeWhile_append_dropWhile]
  · intro token member
    rw [← List.find?_eq_head?_dropWhile_not, ← List.head?_filter] at member
    exact ends token.piece (by rw [List.head?_map]; exact Option.mem_map_of_mem _ member)
  · intro token member
    -- A token of the run is layout, or one of the names.
    rcases List.mem_append.mp member with earlier | behind
    · cases real : token.isReal with
      | false => exact layout real
      | true =>
        have name : token.piece ∈ words.map Piece.ofName :=
          shown ▸ List.mem_map_of_mem (List.mem_filter.mpr ⟨earlier, real⟩)
        rw [(Token.of_piece_mem name).1]
        rfl
    · exact layout (by simpa using List.mem_takeWhile_imp behind)
  · have nothing : (tail.takeWhile (!·.isReal)).filter Token.isReal = [] := by
      rw [List.filter_eq_nil_iff]
      intro token member
      simpa using List.mem_takeWhile_imp member
    rw [List.filter_append, nothing, List.append_nil, shown]

/-- The roles of keywords in a row are seen with the keywords. -/
theorem Token.map_inRun {tokens : List Token} {words : List String}
    (pieces : tokens.map Token.piece = words.map Piece.ofName) :
    (inRun tokens).map (fun token => (token.value, token.state, token.kind)) =
      words.mapIdx fun place word => (word, .word .bare, Kind.inRun words place) := by
  have values : tokens.map Token.value = words := by
    have same := congrArg (List.map Piece.value) pieces
    rw [List.map_map, List.map_map] at same
    exact same.trans (List.map_id _)
  have states : ∀ token ∈ tokens, token.state = .word .bare := by
    intro token member
    have name : token.piece ∈ words.map Piece.ofName := pieces ▸ List.mem_map_of_mem member
    exact (of_piece_mem name).1
  rw [inRun, values]
  -- Both lists are compared place by place.
  refine List.ext_getElem? fun place => ?_
  rw [← values, List.getElem?_map, List.getElem?_mapIdx, List.getElem?_mapIdx, List.getElem?_map]
  cases found : tokens[place]? with
  | none => rfl
  | some token =>
    simp [relabel, states token (List.mem_of_getElem? found)]

/-- Where a source or a bracket starts with keywords and has nothing but layout between them and
behind them, its first real tokens are the keywords, as names, and they are operands and operators
by turns. -/
theorem keywords_alternate {source : String} {options : Options} {earlier later : List Token}
    (split : Forest.items (analyse source options).forest = earlier ++ later)
    (starts : ∀ token ∈ earlier.getLast?, ∃ bracket : Bracket, token.state = .opening bracket)
    {words : List String} {lead text rest : String} (leading : OnlyLayout lead)
    (listed : ∀ word ∈ words, word ∈ keywords) (spaced : Spaced words text)
    (ends : EndsScope rest) (written : Token.text later = lead ++ text ++ rest) :
    (words.mapIdx fun place word => (word, LexState.word .bare, Kind.inRun words place)) <+:
      (later.filter Token.isReal).map fun token => (token.value, token.state, token.kind) := by
  -- The text tells which pieces come first, apart from layout.
  have plain : ∀ word ∈ keywords, isPlainWord word = true := by decide +kernel
  obtain ⟨stops, closing⟩ := ends.reals
  have pieces := congrArg (List.filter Piece.isReal) (Piece.ofText_later split)
  rw [← Piece.reals, written, String.toList_append, String.toList_append, List.append_assoc,
    Piece.reals_append leading.isLayout,
    spaced.reals (fun word member => plain word (listed word member)) stops] at pieces
  obtain ⟨run, more, rfl, out, dark, shown⟩ := exists_run_of_pieces pieces.symm closing
  -- They are the first real tokens of one scope, which is labelled by itself.
  obtain ⟨scope, within, others, heads_eq, outside⟩ := exists_scope_of_run split starts dark out
  have deep : DeeplyLabelled (analyse source options).forest :=
    (Assembly.named_ofSource options source).forest
  have keyword : ∀ token ∈ run.filter Token.isReal, token.IsKeyword := by
    intro token member
    have name : token.piece ∈ words.map Piece.ofName := shown ▸ List.mem_map_of_mem member
    obtain ⟨state_eq, word⟩ := Token.of_piece_mem name
    exact ⟨state_eq, listed _ word⟩
  have roles := (deep scope within).eq_inRun heads_eq outside keyword
  have reset : ((run.filter Token.isReal).map Token.reset).map Token.piece =
      words.map Piece.ofName := by
    rw [List.map_map]
    exact shown
  rw [List.filter_append, List.map_append, roles, Token.map_inRun reset]
  exact List.prefix_append _ _

/-- Inside a bracket the first of three keywords is a name, the second one an operator and the third
one a type, with a comment between the last two of them. -/
theorem kinds_of_keywords : ∃ earlier later : List Token,
    Forest.items (analyse "f( if as(: c :)of )").forest = earlier ++ later ∧
      Token.text earlier = "f(" ∧
      [("if", LexState.word .bare, Kind.plainName), ("as", .word .bare, .operator),
        ("of", .word .bare, .simpleType)] <+:
      (later.filter Token.isReal).map fun token => (token.value, token.state, token.kind) := by
  -- The hypotheses are read off the text, and the tokens of the source are cut behind the opener.
  have space : OnlyLayout " " := ⟨by decide +kernel, by decide +kernel⟩
  have comment : OnlyLayout "(: c :)" := ⟨by decide +kernel, by decide +kernel⟩
  have spaced : Spaced ["if", "as", "of"] ("if" ++ " " ++ ("as" ++ "(: c :)" ++ "of")) :=
    .cons "if" (by decide) space (.cons "as" (by decide) comment (.single "of"))
  have ends : EndsScope (" " ++ .singleton Bracket.round.closer ++ "") :=
    .bracket space .round ""
  have split := List.take_append_drop 2 (Forest.items (analyse "f( if as(: c :)of )").forest)
  have opener : ((Forest.items (analyse "f( if as(: c :)of )").forest).take 2).getLast? =
      some (.ofState "(" (.opening .round) ⟨1, 2⟩) := by
    decide +kernel
  refine ⟨_, _, split.symm, by decide +kernel, ?_⟩
  refine keywords_alternate split.symm ?_ space (by decide) spaced ends (by decide +kernel)
  rw [opener]
  rintro token ⟨⟩
  exact ⟨.round, rfl⟩

end XQueryLexer
