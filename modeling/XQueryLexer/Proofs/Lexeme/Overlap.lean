import XQueryLexer.Proofs.Lexeme.Ending

/-! Comments whose delimiters overlap, and comments that end where whole delimiters end them. -/

namespace XQueryLexer

/-- An opening and a closing delimiter of comments that share their colon. -/
def sharedColon : List Char :=
  ['(', ':', ')']

namespace Extent

/-- The number of characters up to the end of the outermost of some comments, where each delimiter
takes up both of its characters before the next one is looked for. -/
def ofWhole? (nested : Nat) : List Char → Option Nat
  | [] | [_] => none
  | c :: next :: more =>
    if c = '(' && next = ':' then (ofWhole? (nested + 1) more).map (· + 2)
    else if c = ':' && next = ')' then
      if nested = 1 then some 2 else (ofWhole? (nested - 1) more).map (· + 2)
    else (ofWhole? nested (next :: more)).map (· + 1)

variable {text : List Char} {nested outer taken : Nat}

/-- A bracket behind a colon that has been looked at is no delimiter. -/
theorem ofComment?_closer (nested : Nat) (more : List Char) :
    ofComment? nested (')' :: more) = (ofComment? nested more).map (· + 1) := by
  -- Neither delimiter starts with a closing bracket.
  rw [ofComment?, if_neg (by simp), if_neg (by simp)]

/-- An opening delimiter is counted, unless its colon is the start of a closing one. -/
theorem ofComment?_opens (nested : Nat) (more : List Char) :
    ofComment? nested ('(' :: ':' :: more) =
      if more.head? = some ')' then
        if nested = 0 then some 3 else (ofComment? nested more).map (· + 2)
      else (ofComment? (nested + 1) more).map (· + 2) := by
  -- The bracket counts a comment, and then the colon is looked at by itself.
  have second (found : Option Nat) : (found.map (· + 1)).map (· + 1) = found.map (· + 2) := by
    cases found <;> rfl
  rw [ofComment?, if_pos (by simp), ofComment?, if_neg (by simp)]
  split
  · -- The colon ends the comment that has just been opened.
    rename_i closes
    have closes : more.head? = some ')' := by simpa using closes
    rw [if_pos closes]
    by_cases outermost : nested = 0
    · simp [outermost]
    · rw [if_neg (by omega), if_neg outermost, Nat.add_sub_cancel]
      exact second _
  · rename_i apart
    rw [if_neg (by simpa using apart)]
    exact second _

/-- A closing delimiter is counted, and its bracket is passed over. -/
theorem ofComment?_closes (nested : Nat) (more : List Char) :
    ofComment? nested (':' :: ')' :: more) =
      if nested = 1 then some 2 else (ofComment? (nested - 1) more).map (· + 2) := by
  -- The colon is counted as the delimiter, and the bracket by itself means nothing.
  rw [ofComment?, if_neg (by simp), if_pos (by simp), ofComment?_closer, Option.map_map]
  rfl

/-- Whole delimiters end a comment no sooner than its last two characters can be read. -/
theorem two_le_ofWhole? (ends : ofWhole? nested text = some taken) : 2 ≤ taken := by
  -- Two characters are taken in at the end, and more than none before it.
  fun_induction ofWhole? nested text generalizing taken with
  | case1 => simp at ends
  | case2 => simp at ends
  | case3 nested c next more opens ih =>
    obtain ⟨inner, -, rfl⟩ := Option.map_eq_some_iff.mp ends
    omega
  | case4 c next more other closes =>
    obtain rfl := Option.some.inj ends
    omega
  | case5 nested c next more other closes inside ih =>
    obtain ⟨inner, -, rfl⟩ := Option.map_eq_some_iff.mp ends
    omega
  | case6 nested c next more other apart ih =>
    obtain ⟨inner, found, rfl⟩ := Option.map_eq_some_iff.mp ends
    have := ih found
    omega

/-- A character that does not open a comment is not the start of a shared colon. -/
theorem infix_cons_iff {c : Char} {text : List Char} (apart : ¬(c = '(' ∧ text.head? = some ':')) :
    sharedColon <:+: c :: text ↔ sharedColon <:+: text := by
  -- A shared colon at the start would be that of an opening delimiter.
  rw [List.infix_cons_iff, or_iff_right]
  rintro ⟨more, found⟩
  simp only [sharedColon, List.cons_append, List.cons.injEq] at found
  obtain ⟨rfl, rfl⟩ := found
  exact apart ⟨rfl, rfl⟩

/-- The colon of an opening delimiter is shared exactly if the bracket stands behind it. -/
theorem infix_opens_iff {text : List Char} :
    sharedColon <:+: '(' :: ':' :: text ↔ text.head? = some ')' ∨ sharedColon <:+: text := by
  -- It is shared at the start, or somewhere behind the bracket, where no delimiter opens at the
  -- colon.
  rw [List.infix_cons_iff, infix_cons_iff (by simp)]
  refine or_congr_left ⟨?_, ?_⟩
  · rintro ⟨more, found⟩
    -- The third character is the one behind the colon.
    simp only [sharedColon, List.cons_append, List.cons.injEq] at found
    obtain ⟨-, -, rfl⟩ := found
    rfl
  · intro closes
    obtain ⟨more, rfl⟩ := List.head?_eq_some_iff.mp closes
    exact ⟨more, rfl⟩

/-- Any other pair of characters is passed over. -/
theorem ofComment?_cons {c : Char} (nested : Nat) (opens : ¬(c = '(' ∧ text.head? = some ':'))
    (closes : ¬(c = ':' ∧ text.head? = some ')')) :
    ofComment? nested (c :: text) = (ofComment? nested text).map (· + 1) := by
  rw [ofComment?, if_neg (by simpa using opens), if_neg (by simpa using closes)]

/-- Without a shared colon in it a comment ends where whole delimiters end it. -/
theorem ofWhole?_of_ofComment? (least : 1 ≤ nested) (ends : ofComment? nested text = some taken)
    (apart : ¬sharedColon <:+: text.take taken) : ofWhole? nested text = some taken := by
  -- The induction follows the whole delimiters, which are also those of the comment.
  fun_induction ofWhole? nested text generalizing taken with
  | case1 => simp [ofComment?] at ends
  | case2 nested c =>
    -- One character is too few for the end of a comment.
    have bounds := ofComment?_bounds ends
    simp only [List.length_singleton] at bounds
    omega
  | case3 nested c next more opens ih =>
    obtain ⟨rfl, rfl⟩ : c = '(' ∧ next = ':' := by simpa using opens
    rw [ofComment?_opens] at ends
    split at ends
    · rename_i closes
      -- The colon would be shared in the part of the text that the comment takes in.
      rw [if_neg (by omega)] at ends
      obtain ⟨inner, found, rfl⟩ := Option.map_eq_some_iff.mp ends
      have bounds := ofComment?_bounds found
      refine absurd (infix_opens_iff.mpr (.inl ?_)) apart
      rwa [List.head?_take, if_neg (by omega)]
    · obtain ⟨inner, found, rfl⟩ := Option.map_eq_some_iff.mp ends
      rw [ih (by omega) found fun shared => apart (infix_opens_iff.mpr (.inr shared))]
      rfl
  | case4 c next more other closes =>
    obtain ⟨rfl, rfl⟩ : c = ':' ∧ next = ')' := by simpa using closes
    rwa [ofComment?_closes, if_pos rfl] at ends
  | case5 nested c next more other closes inside ih =>
    obtain ⟨rfl, rfl⟩ : c = ':' ∧ next = ')' := by simpa using closes
    rw [ofComment?_closes, if_neg inside] at ends
    obtain ⟨inner, found, rfl⟩ := Option.map_eq_some_iff.mp ends
    rw [ih (by omega) found fun shared => apart ?_]
    · rfl
    · -- Neither the colon nor the bracket is the start of a shared colon.
      exact (infix_cons_iff (by simp)).mpr ((infix_cons_iff (by simp)).mpr shared)
  | case6 nested c next more other apart' ih =>
    rw [ofComment?_cons nested (by simpa using other) (by simpa using apart')] at ends
    obtain ⟨inner, found, rfl⟩ := Option.map_eq_some_iff.mp ends
    rw [ih least found fun shared => apart (shared.trans (List.suffix_cons _ _).isInfix)]
    rfl

/-- Some comments end in a text no later than at a place, and only there if no comment more is open
and no two delimiters up to there share a colon. -/
def EndsWithin (outer extra : Nat) (text : List Char) (reach : Nat) : Prop :=
  ∃ taken, ofComment? outer text = some taken ∧ taken ≤ reach ∧
    (taken = reach → extra = 0 ∧ ¬sharedColon <:+: text.take taken)

namespace EndsWithin

variable {extra reach : Nat} {more : List Char}

/-- A shared colon ends what it has opened, which stays open for whole delimiters. -/
theorem shares (within : EndsWithin outer (extra + 1) more reach) (least : 1 ≤ outer)
    (closes : more.head? = some ')') : EndsWithin outer extra ('(' :: ':' :: more) (reach + 2) := by
  obtain ⟨taken, ends, most, same⟩ := within
  refine ⟨taken + 2, ?_, by omega, fun equal => ?_⟩
  · rw [ofComment?_opens, if_pos closes, if_neg (by omega), ends]
    rfl
  · -- One comment more would have to be none.
    have := (same (by omega)).1
    omega

/-- An opening delimiter with a colon of its own is counted on both sides. -/
theorem opens (within : EndsWithin (outer + 1) extra more reach)
    (apart : more.head? ≠ some ')') :
    EndsWithin outer extra ('(' :: ':' :: more) (reach + 2) := by
  obtain ⟨taken, ends, most, same⟩ := within
  refine ⟨taken + 2, ?_, by omega, fun equal => ?_⟩
  · rw [ofComment?_opens, if_neg apart, ends]
    rfl
  · obtain ⟨none_left, unshared⟩ := same (by omega)
    have bounds := ofComment?_bounds ends
    refine ⟨none_left, ?_⟩
    -- The bracket that would share the colon is not the next character.
    rw [List.take_succ_cons, List.take_succ_cons, infix_opens_iff, List.head?_take,
      if_neg (by omega)]
    exact not_or.mpr ⟨apart, unshared⟩

/-- The closing delimiter of the outermost comment ends it, at the latest where another one does. -/
theorem ends (extra : Nat) (more : List Char) (later : extra ≠ 0 → 2 < reach) (two : 2 ≤ reach) :
    EndsWithin 1 extra (':' :: ')' :: more) reach := by
  refine ⟨2, ofComment?_closes 1 more, two, fun equal => ⟨?_, ?_⟩⟩
  · -- A comment more would be ended later by whole delimiters.
    omega
  · -- The two characters of the delimiter are fewer than those of a shared colon.
    simp only [List.take_succ_cons, List.take_zero]
    decide

/-- A closing delimiter inside another comment is counted on both sides. -/
theorem closes (within : EndsWithin outer extra more reach) (least : 1 ≤ outer) :
    EndsWithin (outer + 1) extra (':' :: ')' :: more) (reach + 2) := by
  obtain ⟨taken, ends, most, same⟩ := within
  refine ⟨taken + 2, ?_, by omega, fun equal => ?_⟩
  · rw [ofComment?_closes, if_neg (by omega), Nat.add_sub_cancel, ends]
    rfl
  · obtain ⟨none_left, unshared⟩ := same (by omega)
    refine ⟨none_left, ?_⟩
    -- Neither character of the delimiter is the start of a shared colon.
    rwa [List.take_succ_cons, List.take_succ_cons, infix_cons_iff (by simp),
      infix_cons_iff (by simp)]

/-- Any other character is passed over on both sides. -/
theorem cons {c : Char} (within : EndsWithin outer extra more reach)
    (opens : ¬(c = '(' ∧ more.head? = some ':')) (closes : ¬(c = ':' ∧ more.head? = some ')')) :
    EndsWithin outer extra (c :: more) (reach + 1) := by
  obtain ⟨taken, ends, most, same⟩ := within
  refine ⟨taken + 1, ?_, by omega, fun equal => ?_⟩
  · rw [ofComment?_cons outer opens closes, ends]
    rfl
  · obtain ⟨none_left, unshared⟩ := same (by omega)
    refine ⟨none_left, ?_⟩
    rwa [List.take_succ_cons, infix_cons_iff]
    -- What is ahead in the part of the text that is taken is ahead in the text.
    rintro ⟨rfl, ahead⟩
    rw [List.head?_take] at ahead
    split at ahead
    · cases ahead
    · exact opens ⟨rfl, ahead⟩

end EndsWithin

/-- Whole delimiters never end a comment sooner than it ends, and only as soon if none of those that
have been counted share a colon. -/
theorem endsWithin_of_ofWhole? {extra reach : Nat} (least : 1 ≤ outer)
    (within : nested = outer + extra) (reached : ofWhole? nested text = some reach) :
    EndsWithin outer extra text reach := by
  -- The comment and the whole delimiters differ by what shared colons have ended.
  fun_induction ofWhole? nested text generalizing outer extra reach with
  | case1 => simp at reached
  | case2 => simp at reached
  | case3 nested c next more opens ih =>
    obtain ⟨rfl, rfl⟩ : c = '(' ∧ next = ':' := by simpa using opens
    obtain ⟨inner, found, rfl⟩ := Option.map_eq_some_iff.mp reached
    by_cases shared : more.head? = some ')'
    · have inside : EndsWithin outer (extra + 1) more inner := ih least (by omega) found
      exact inside.shares least shared
    · have inside : EndsWithin (outer + 1) extra more inner := ih (by omega) (by omega) found
      exact inside.opens shared
  | case4 c next more other closes =>
    obtain ⟨rfl, rfl⟩ : c = ':' ∧ next = ')' := by simpa using closes
    obtain rfl := Option.some.inj reached
    -- Only one comment is open for whole delimiters, so it is the only one.
    obtain ⟨rfl, rfl⟩ : outer = 1 ∧ extra = 0 := by omega
    exact .ends 0 more (by simp) (Nat.le_refl 2)
  | case5 nested c next more other closes inside ih =>
    obtain ⟨rfl, rfl⟩ : c = ':' ∧ next = ')' := by simpa using closes
    obtain ⟨inner, found, rfl⟩ := Option.map_eq_some_iff.mp reached
    by_cases outermost : outer = 1
    · -- The comment ends here, and whole delimiters go on.
      subst outermost
      have := two_le_ofWhole? found
      exact .ends extra more (by omega) (by omega)
    · obtain ⟨outer, rfl⟩ := Nat.exists_eq_add_of_le' least
      have inside : EndsWithin outer extra more inner := ih (by omega) (by omega) found
      exact inside.closes (by omega)
  | case6 nested c next more other apart ih =>
    obtain ⟨inner, found, rfl⟩ := Option.map_eq_some_iff.mp reached
    have inside : EndsWithin outer extra (next :: more) inner := ih least within found
    exact inside.cons (by simpa using other) (by simpa using apart)

/-- A comment ends where whole delimiters end it exactly if no two of its delimiters share a colon,
its first one included. -/
theorem ofWhole?_iff {more : List Char} (ends : ofComment? 0 ('(' :: ':' :: more) = some taken) :
    ofWhole? 0 ('(' :: ':' :: more) = some taken ↔
      ¬sharedColon <:+: ('(' :: ':' :: more).take taken := by
  have whole : ofWhole? 0 ('(' :: ':' :: more) = (ofWhole? 1 more).map (· + 2) := rfl
  rw [ofComment?_opens] at ends
  rw [whole]
  split at ends
  · -- The first delimiter has its colon in common with the one that ends the comment.
    rename_i closes
    obtain rfl := Option.some.inj ends
    obtain ⟨rest, rfl⟩ := List.head?_eq_some_iff.mp closes
    refine iff_of_false ?_ fun apart => apart ⟨[], [], rfl⟩
    -- Whole delimiters cannot end it so soon.
    intro reached
    obtain ⟨inner, found, same⟩ := Option.map_eq_some_iff.mp reached
    have := two_le_ofWhole? found
    omega
  · -- The first delimiter has a colon of its own, and so only those behind it matter.
    rename_i apart
    obtain ⟨inner, found, rfl⟩ := Option.map_eq_some_iff.mp ends
    have bounds := ofComment?_bounds found
    have ahead : (more.take inner).head? ≠ some ')' := by
      rwa [List.head?_take, if_neg (by omega)]
    rw [List.take_succ_cons, List.take_succ_cons, infix_opens_iff, or_iff_right ahead]
    constructor
    · intro reached
      obtain ⟨reach, whole, same⟩ := Option.map_eq_some_iff.mp reached
      have within : EndsWithin 1 0 more reach := endsWithin_of_ofWhole? (Nat.le_refl 1) rfl whole
      obtain ⟨other, ends, -, last⟩ := within
      obtain rfl : other = inner := Option.some.inj (ends.symm.trans found)
      exact (last (by omega)).2
    · intro unshared
      rw [ofWhole?_of_ofComment? (Nat.le_refl 1) found unshared]
      rfl

/-- A comment that is not ended is not ended by whole delimiters. -/
theorem ofWhole?_eq_none {more : List Char} (endless : ofComment? 0 ('(' :: ':' :: more) = none) :
    ofWhole? 0 ('(' :: ':' :: more) = none := by
  rw [ofComment?_opens] at endless
  split at endless
  · -- A colon that the first delimiter shares would end the comment.
    cases endless
  · have endless := Option.map_eq_none_iff.mp endless
    -- If whole delimiters ended it, then it would end there at the latest.
    refine Option.map_eq_none_iff.mpr (Option.eq_none_iff_forall_ne_some.mpr fun reach whole => ?_)
    have within : EndsWithin 1 0 more reach := endsWithin_of_ofWhole? (Nat.le_refl 1) rfl whole
    obtain ⟨taken, ends, -⟩ := within
    rw [endless] at ends
    cases ends

/-- A comment ends with a closing delimiter. -/
theorem exists_take_of_ofComment? (ends : ofComment? nested text = some taken) :
    ∃ body, text.take taken = body ++ [':', ')'] := by
  induction text generalizing nested taken with
  | nil => simp [ofComment?] at ends
  | cons c rest ih =>
    -- Every character in front of the delimiter is one more of the body.
    have later {nested : Nat} (ends : (ofComment? nested rest).map (· + 1) = some taken) :
        ∃ body, (c :: rest).take taken = body ++ [':', ')'] := by
      obtain ⟨inner, found, rfl⟩ := Option.map_eq_some_iff.mp ends
      obtain ⟨body, same⟩ := ih found
      exact ⟨c :: body, by rw [List.take_succ_cons, same, List.cons_append]⟩
    rw [ofComment?] at ends
    split at ends
    · exact later ends
    · split at ends
      · rename_i closes
        split at ends
        · obtain rfl := Option.some.inj ends
          obtain ⟨rfl, ahead⟩ : c = ':' ∧ rest.head? = some ')' := by simpa using closes
          obtain ⟨more, rfl⟩ := List.head?_eq_some_iff.mp ahead
          exact ⟨[], rfl⟩
        · exact later ends
      · exact later ends

/-- A comment that is ended starts and ends with a delimiter, and these two share their colon only
if they are all of the comment. -/
theorem eq_or_exists_body {more : List Char}
    (ends : ofComment? 0 ('(' :: ':' :: more) = some taken) :
    ('(' :: ':' :: more).take taken = sharedColon ∨
      ∃ body, ('(' :: ':' :: more).take taken = '(' :: ':' :: (body ++ [':', ')']) := by
  -- The comment is its bracket and a part of the text that ends with a delimiter.
  rw [ofComment?, if_pos (by simp)] at ends
  obtain ⟨inner, found, rfl⟩ := Option.map_eq_some_iff.mp ends
  obtain ⟨body, same⟩ := exists_take_of_ofComment? found
  have bounds := ofComment?_bounds found
  obtain ⟨inner, rfl⟩ : ∃ less, inner = less + 1 := ⟨inner - 1, by omega⟩
  rw [List.take_succ_cons, same]
  rw [List.take_succ_cons] at same
  cases body with
  -- The closing delimiter starts with the colon of the opening one.
  | nil => exact .inl rfl
  | cons c body =>
    obtain rfl : ':' = c := (List.cons.inj same).1
    exact .inr ⟨body, rfl⟩

end Extent

end XQueryLexer
