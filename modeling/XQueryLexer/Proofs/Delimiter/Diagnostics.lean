import XQueryLexer.Proofs.Delimiter.Passing
import XQueryLexer.Proofs.Nesting.Nest

/-! The diagnostics of a source are what a reader of its delimiters finds. -/

namespace XQueryLexer

/-- A fault at an offset as a diagnostic, which keeps the low 32 bits of the offset. -/
def Diagnostic.ofFound (found : Fault × Nat) : Diagnostic :=
  .ofOffset found.1 found.2

/-- The bracket of a level, with what a fault would say about it. -/
def Nest.Level.mark (level : Nest.Level) : Bracket × Diagnostic :=
  (level.bracket, level.fault)

namespace Watch

/-- A nest that has the open brackets and the faults of a reader of delimiters in code. -/
structure Follows (watch : Watch) (nest : Nest) : Prop where
  /-- The reader is outside literals and comments. -/
  code : watch.region = .code
  /-- The nest collects faults. -/
  collecting : nest.collecting = true
  /-- The same brackets are open, and they would be reported alike. -/
  levels_eq : nest.levels.map Nest.Level.mark =
    watch.stack.map fun entry => (entry.1, .ofFound (unclosed entry))
  /-- The same faults have been found. -/
  reports_eq : nest.reports = watch.found.map Diagnostic.ofFound

variable {watch : Watch} {nest : Nest}

/-- A reported fault is found by the reader too. -/
theorem Follows.report (follows : watch.Follows nest) (fault : Fault) (offset : Nat) :
    (watch.report fault offset).Follows (nest.report (.ofOffset fault offset)) := by
  -- Both of them put the fault behind those found before.
  obtain ⟨code, collecting, levels_eq, reports_eq⟩ := follows
  rw [Nest.report, if_pos collecting]
  refine ⟨code, collecting, levels_eq, ?_⟩
  simp only [Watch.report, List.map_append, reports_eq]
  rfl

/-- A placed token is no concern of the reader. -/
theorem Follows.place (follows : watch.Follows nest) (token : Token) :
    watch.Follows (nest.place token) :=
  -- Only the inside of the nest changes, which the reader does not keep.
  ⟨follows.code, follows.collecting, follows.levels_eq, follows.reports_eq⟩

/-- An opened bracket is pushed by the reader. -/
theorem Follows.openBracket (follows : watch.Follows nest) (bracket : Bracket) (offset : Nat)
    {token : Token} (value : token.value = .singleton bracket.opener)
    (start : token.span.start = .ofNat offset) :
    { watch with stack := (bracket, offset) :: watch.stack }.Follows
      (nest.openBracket bracket token) := by
  -- The new level would be reported with the value and the start of the token.
  obtain ⟨code, collecting, levels_eq, reports_eq⟩ := follows
  refine ⟨code, collecting, ?_, reports_eq⟩
  simp only [Nest.openBracket, List.map_cons, levels_eq, Nest.Level.mark, Nest.Level.fault, value,
    start]
  rfl

/-- A closed bracket is popped by the reader, and one that closes nothing is reported alike. -/
theorem Follows.closeBracket (follows : watch.Follows nest) (bracket : Bracket) (offset : Nat)
    {token : Token} (value : token.value = .singleton bracket.closer)
    (start : token.span.start = .ofNat offset) :
    (watch.close bracket offset).Follows (nest.closeBracket bracket token) := by
  have levels_eq := follows.levels_eq
  unfold Watch.close Nest.closeBracket
  -- The two stacks are empty together, and their tops are brackets of the same kind.
  cases levels : nest.levels with
  | nil =>
    cases stack : watch.stack with
    | nil =>
      rw [value, start]
      exact (follows.report _ offset).place _
    | cons entry below => simp [levels, stack] at levels_eq
  | cons level outer =>
    cases stack : watch.stack with
    | nil => simp [levels, stack] at levels_eq
    | cons entry below =>
      obtain ⟨top, opened⟩ := entry
      simp only [levels, stack, List.map_cons, List.cons.injEq] at levels_eq
      obtain ⟨topmost, deeper⟩ := levels_eq
      obtain rfl : level.bracket = top := congrArg Prod.fst topmost
      dsimp only
      by_cases same : level.bracket = bracket
      · -- A bracket that matches the top takes it off both stacks.
        rw [if_pos same, if_pos same]
        have left : { watch with stack := below }.Follows
            { nest with levels := outer, inside := level.fold nest.inside } :=
          ⟨follows.code, follows.collecting, deeper, follows.reports_eq⟩
        exact left.place _
      · -- Any other one is reported at the same offset, and both stacks stay.
        rw [if_neg same, if_neg same, start]
        exact (follows.report _ offset).place _

/-- The brackets that are never closed are reported behind everything else. -/
theorem Follows.reportUnclosed (follows : watch.Follows nest) : nest.reportUnclosed.reports =
    (watch.found ++ watch.stack.map unclosed).map Diagnostic.ofFound := by
  -- Levels that would be reported alike are reported alike.
  have faults := congrArg (List.map Prod.snd) follows.levels_eq
  simp only [List.map_map] at faults
  rw [Nest.reportUnclosed_eq, if_pos follows.collecting, List.map_append, List.map_map,
    follows.reports_eq]
  exact congrArg (_ ++ ·) faults

/-- The end of a text is reported alike, whatever part of the text it stands in. -/
theorem Follows.finish (follows : watch.Follows nest) {state : LexState} {region : Region}
    (same : state.unterminated? = region.fault?) (offset : Nat) :
    ((Event.ofEnd state offset).foldl Nest.absorb nest).reportUnclosed.reports =
      ((watch.enter region).finish offset).map Diagnostic.ofFound := by
  -- A region that has to be ended is reported before the open brackets.
  rw [Event.ofEnd, same]
  cases ends : region.fault? with
  | none =>
    have reports := follows.reportUnclosed
    simpa [Watch.finish, enter, ends] using reports
  | some fault =>
    have reports := (follows.report fault offset).reportUnclosed
    simpa [Watch.finish, enter, ends, Watch.report, Nest.absorb] using reports

/-- A lexeme that is no bracket by itself is no concern of the reader. -/
theorem Follows.absorb_place (follows : watch.Follows nest) {state : LexState}
    (apart : state.isBracket = false) (start : Nat) (piece : List Char) :
    watch.Follows (nest.absorb (.ofPiece start piece state)) := by
  -- Every other lexeme is placed, whatever its class.
  cases state with
  | opening bracket | closing bracket => simp [LexState.isBracket] at apart
  | _ => exact follows.place _

/-- A lexeme that ends leaves the reader and the nest with the same brackets and faults. -/
theorem Follows.absorb (follows : watch.Follows nest) {c : Char} {rest : List Char} {more : Nat}
    {state : LexState} (starts : state.Starts c rest.head?)
    (extent : state.extent? rest = some more) (offset : Nat) : ∃ after : Watch,
      after.Follows (nest.absorb (.ofPiece offset (c :: rest.take more) state)) ∧
      watch.run offset (c :: rest) =
        after.run (offset + byteCount (c :: rest.take more)) (rest.drop more) := by
  have code := follows.code
  cases bracketed : state.isBracket with
  | true =>
    -- A bracket is the one character that both of them act on.
    cases starts with
    | opener bracket opens apart start =>
      obtain rfl := Option.some.inj extent
      subst opens
      refine ⟨_, follows.openBracket bracket offset rfl rfl, run_single ?_⟩
      cases bracket <;> simp_all [Watch.read, readCode, Bracket.opener, Bracket.ofOpener?]
    | closer bracket closes =>
      obtain rfl := Option.some.inj extent
      subst closes
      refine ⟨_, follows.closeBracket bracket offset rfl rfl, run_single ?_⟩
      cases bracket <;> simp [Watch.read, code, readCode, Bracket.closer, Bracket.ofOpener?,
        Bracket.ofCloser?]
    | _ => simp [LexState.isBracket] at bracketed
  | false =>
    refine ⟨watch, follows.absorb_place bracketed offset _, ?_⟩
    cases ends : state.unterminated? with
    | none => exact run_idleLexeme code starts extent bracketed ends
    | some fault =>
      -- Behind a literal the reader is in code again, as it was before.
      obtain ⟨region, -, run_eq⟩ := run_enclosed code starts (by simp [ends])
      have outside : watch.enter .code = watch := by simp [enter, ← code]
      rw [run_eq, extent]
      simp only [Option.map_some, behind, outside, List.take_succ_cons, List.drop_succ_cons]

/-- A lexeme that the end of the text cuts off is reported alike. -/
theorem Follows.absorb_last (follows : watch.Follows nest) {c : Char} {rest : List Char}
    {state : LexState} (starts : state.Starts c rest.head?) (extent : state.extent? rest = none)
    (offset : Nat) :
    ((Event.ofEnd state (offset + byteCount (c :: rest))).foldl Nest.absorb
        (nest.absorb (.ofPiece offset (c :: rest) state))).reportUnclosed.reports =
      (watch.run offset (c :: rest)).map Diagnostic.ofFound := by
  -- Only literals and comments can reach beyond the end of the text.
  have enclosed : state.unterminated?.isSome = true ∧ state.isBracket = false := by
    cases starts <;> simp_all [LexState.extent?, LexState.unterminated?, LexState.isBracket]
  obtain ⟨region, same, run_eq⟩ := run_enclosed follows.code starts enclosed.1
  rw [(follows.absorb_place enclosed.2 offset _).finish same, run_eq, extent]
  rfl

/-- What is reported about the nesting of a text is what the reader finds in it. -/
theorem Follows.reports_ofText (offset : Nat) (text : List Char) :
    ∀ {watch : Watch} {nest : Nest}, watch.Follows nest →
      ((Event.ofText offset text).foldl Nest.absorb nest).reportUnclosed.reports =
        (watch.run offset text).map Diagnostic.ofFound := by
  -- Lexeme by lexeme, the reader comes out with the brackets and the faults of the nest.
  fun_induction Event.ofText offset text with
  | case1 =>
    intro watch nest follows
    have reports := follows.reportUnclosed
    simpa [Watch.run, Watch.finish, follows.code, Region.fault?] using reports
  | case2 offset c rest state more extent =>
    rename_i piece ih
    intro watch nest follows
    obtain ⟨after, followed, run_eq⟩ :=
      follows.absorb (LexState.starts_starting c rest.head?) extent offset
    rw [List.foldl_cons, ih followed, run_eq]
  | case3 offset c rest state =>
    rename_i extent
    intro watch nest follows
    exact follows.absorb_last (LexState.starts_starting c rest.head?) extent offset

/-- Offsets that a reader remembers, none of which lies behind a limit. -/
structure Within (watch : Watch) (limit : Nat) : Prop where
  /-- The open brackets stand before the limit or at it. -/
  stack : ∀ entry ∈ watch.stack, entry.2 ≤ limit
  /-- So do the faults. -/
  found : ∀ entry ∈ watch.found, entry.2 ≤ limit

/-- A limit can be moved on. -/
theorem Within.mono {limit further : Nat} (within : watch.Within limit) (le : limit ≤ further) :
    watch.Within further :=
  -- Everything stands before the nearer limit.
  ⟨fun entry held => Nat.le_trans (within.stack entry held) le,
    fun entry held => Nat.le_trans (within.found entry held) le⟩

/-- A reported fault stands at the offset that is reported. -/
theorem Within.report {offset : Nat} (within : watch.Within offset) (fault : Fault) :
    (watch.report fault offset).Within offset := by
  refine ⟨within.stack, fun entry held => ?_⟩
  -- The new fault stands at the limit itself, which is allowed.
  rcases List.mem_append.mp held with earlier | last
  · exact within.found entry earlier
  · obtain rfl := List.mem_singleton.mp last
    exact Nat.le_refl _

/-- A closing bracket is reported at its own offset, if it is reported. -/
theorem Within.close {offset : Nat} (within : watch.Within offset) (bracket : Bracket) :
    (watch.close bracket offset).Within offset := by
  -- A bracket that is popped leaves fewer offsets, and a fault adds the current one.
  unfold Watch.close
  split
  · exact within.report _
  · rename_i top opened below stack
    split
    · refine ⟨fun entry held => within.stack entry ?_, within.found⟩
      rw [stack]
      exact List.mem_cons_of_mem _ held
    · exact within.report _

/-- A character that is read is remembered at its own offset, if it is remembered. -/
theorem Within.read {offset : Nat} (within : watch.Within offset) (c : Char)
    (ahead : Option Char) : (watch.read offset c ahead).1.Within offset := by
  -- Only code looks at brackets, and everywhere else at most the region changes.
  have moved (region : Region) : (watch.enter region).Within offset :=
    ⟨within.stack, within.found⟩
  have pushed (bracket : Bracket) :
      { watch with stack := (bracket, offset) :: watch.stack }.Within offset := by
    refine ⟨fun entry held => ?_, within.found⟩
    rcases List.mem_cons.mp held with rfl | earlier
    · exact Nat.le_refl _
    · exact within.stack entry earlier
  unfold Watch.read readCode
  grind [within.close]

/-- The faults of a text that ends stand before the end or at it. -/
theorem Within.finish {offset : Nat} (within : watch.Within offset) :
    ∀ entry ∈ watch.finish offset, entry.2 ≤ offset := by
  -- A fault was found before, or stands at the end, or is that of an open bracket.
  intro entry held
  simp only [Watch.finish, List.mem_append, List.mem_map] at held
  rcases held with (earlier | ⟨fault, -, rfl⟩) | ⟨opened, stacked, rfl⟩
  · exact within.found entry earlier
  · exact Nat.le_refl _
  · exact within.stack opened stacked

/-- The faults of a text stand inside the text. -/
theorem Within.run {offset : Nat} (within : watch.Within offset) (text : List Char) :
    ∀ entry ∈ watch.run offset text, entry.2 ≤ offset + byteCount text := by
  -- A character that is read leaves the reader within the offset behind the character.
  have passed {watch after : Watch} {offset : Nat} {c : Char} {ahead : Option Char} {both : Bool}
      (within : watch.Within offset) (read_eq : watch.read offset c ahead = (after, both)) :
      after.Within (offset + c.utf8Size) := by
    have read := within.read c ahead
    rw [read_eq] at read
    exact read.mono (Nat.le_add_right _ _)
  fun_induction Watch.run watch offset text with
  | case1 watch offset => exact within.finish
  | case2 watch offset c after read_eq => exact (passed within read_eq).finish
  | case3 watch offset c after next more read_eq ih =>
    have inner := ih ((passed within read_eq).mono (Nat.le_add_right _ _))
    simpa only [byteCount_cons, Nat.add_assoc] using inner
  | case4 watch offset c more after both read_eq single ih =>
    have inner := ih (passed within read_eq)
    simpa only [byteCount_cons, Nat.add_assoc] using inner

end Watch

/-- The diagnostics of a source that has offsets of 32 bits are the faults that a reader of its
delimiters finds, at the same offsets and in the same order. -/
theorem diagnostics_eq_run (source : String) (small : source.utf8ByteSize < UInt32.size) :
    (analyse source).diagnostics.map (fun found => (found.fault, found.position.toNat)) =
      Watch.initial.run 0 source.toList := by
  have follows : Watch.initial.Follows (.initial true) := ⟨rfl, rfl, rfl, rfl⟩
  have reports := Watch.Follows.reports_ofText 0 source.toList follows
  have within : Watch.initial.Within 0 := ⟨by simp [Watch.initial], by simp [Watch.initial]⟩
  rw [analyse_diagnostics, Nest.ofText, reports, List.map_map]
  -- No offset is so large that its low 32 bits would be another offset.
  refine (List.map_congr_left ?_).trans (List.map_id _)
  intro entry held
  have bounded := within.run source.toList entry held
  rw [← utf8ByteSize_eq_byteCount] at bounded
  have kept : (UInt32.ofNat entry.2).toNat = entry.2 :=
    UInt32.toNat_ofNat_of_lt' (by omega)
  exact Prod.ext rfl kept

/-- A bracket that is closed by another kind of bracket stays open. -/
theorem diagnostics_of_mismatch : "(a]".utf8ByteSize < UInt32.size ∧
    (analyse "(a]").diagnostics.map (fun found => (found.fault, found.position.toNat)) =
      [(.mismatchedCloser ')' ']', 2), (.unclosedBracket "(", 0)] :=
  ⟨by decide, diagnostics_eq_run "(a]" (by decide)⟩

end XQueryLexer
