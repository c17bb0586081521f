import XQueryLexer.Proofs.Delimiter.Collecting
import XQueryLexer.Proofs.Nesting.Tracking
import XQueryLexer.Proofs.Session.Lexer

/-! Every call of a lexer is answered as if it were the first one, and with the same forest whether
or not diagnostics are collected. -/

namespace XQueryLexer

namespace Assembly

/-- What has been collected, and whether anything is to be. -/
def collection (assembly : Assembly) : Bool × Array Diagnostic :=
  (assembly.collecting, assembly.diagnostics)

variable (assembly : Assembly) (token : Token)

/-- A new role collects nothing. -/
theorem collection_relabel (kind : Option Kind) :
    (assembly.relabel kind).collection = assembly.collection := by
  -- There may be no token to relabel.
  unfold relabel
  split <;> rfl

/-- Announcing a token collects nothing. -/
theorem collection_announce : (assembly.announce token).1.collection = assembly.collection := by
  -- The two relabellings collect nothing, and neither does the record of the token.
  simp only [announce, settle, collection_relabel]
  rfl

/-- Placing a token collects nothing. -/
theorem collection_place : (assembly.place token).collection = assembly.collection :=
  assembly.collection_announce token

/-- Opening a bracket collects nothing. -/
theorem collection_openBracket (bracket : Bracket) :
    (assembly.openBracket bracket token).collection = assembly.collection :=
  assembly.collection_announce token

end Assembly

namespace Harvest

variable {options : Options} {harvest : Harvest} {assembly other : Assembly}

/-- A harvest of the diagnostics that an assembly has collected. -/
structure Agrees (options : Options) (harvest : Harvest) (assembly : Assembly) : Prop where
  /-- Both collect diagnostics, or neither does. -/
  chosen : assembly.collecting = options.collectDiagnostics
  /-- Both have collected the same ones. -/
  diagnostics_eq : harvest.diagnostics = assembly.diagnostics.toList

/-- Only what has been collected matters for the diagnostics of a harvest. -/
theorem Agrees.of_collection (agrees : harvest.Agrees options assembly)
    (same : other.collection = assembly.collection) : harvest.Agrees options other := by
  -- Agreement speaks of nothing else of the assembly.
  obtain ⟨chosen, diagnostics_eq⟩ := agrees
  obtain ⟨collecting, diagnostics⟩ := Prod.mk.inj same
  exact ⟨collecting ▸ chosen, diagnostics ▸ diagnostics_eq⟩

/-- A diagnostic is collected on both sides or on neither. -/
theorem Agrees.diagnose (agrees : harvest.Agrees options assembly) (diagnostic : Diagnostic) :
    (harvest.diagnose options diagnostic).Agrees options (assembly.report diagnostic) := by
  -- The same option decides on both sides.
  obtain ⟨chosen, diagnostics_eq⟩ := agrees
  unfold Harvest.diagnose Assembly.report
  simp only [chosen]
  split
  · exact ⟨chosen, by simp [Assembly.note, diagnostics_eq]⟩
  · exact ⟨chosen, diagnostics_eq⟩

/-- A diagnosis changes nothing of the draft. -/
theorem draft_diagnose (options : Options) (harvest : Harvest) (diagnostic : Diagnostic) :
    (harvest.diagnose options diagnostic).draft = harvest.draft := by
  -- The diagnostic is collected or not, beside the draft.
  unfold diagnose
  split <;> rfl

/-- Open brackets are reported on both sides, the innermost one first. -/
theorem Agrees.foldl_diagnose (agrees : harvest.Agrees options assembly) {frames : List Frame}
    (opened : ∀ frame ∈ frames, frame.Opened) :
    let reported := frames.foldl (fun reported frame => reported.diagnose options
      ⟨.unclosedBracket (.singleton frame.placed.opening.char), frame.placed.opening.position⟩)
      harvest
    reported.Agrees options (frames.foldl (fun reported frame =>
      reported.report ⟨.unclosedBracket frame.opener.value, frame.opener.span.start⟩) assembly) ∧
      reported.draft = harvest.draft := by
  intro reported
  induction frames generalizing harvest assembly with
  | nil => exact ⟨agrees, rfl⟩
  | cons frame outer ih =>
    obtain ⟨first, later⟩ := List.forall_mem_cons.mp opened
    -- The character that is remembered of the bracket is its whole text.
    obtain ⟨c, value⟩ := first.single
    have text : String.singleton frame.placed.opening.char = frame.opener.value := by
      simp [Nest.Level.opening, Frame.placed, value, String.front_eq, String.front?_eq]
    have reported : (harvest.diagnose options ⟨.unclosedBracket (.singleton
        frame.placed.opening.char), frame.placed.opening.position⟩).Agrees options
        (assembly.report ⟨.unclosedBracket frame.opener.value, frame.opener.span.start⟩) := by
      rw [text]
      exact agrees.diagnose _
    obtain ⟨others, draft_eq⟩ := ih reported later
    exact ⟨others, draft_eq.trans (draft_diagnose options harvest _)⟩

/-- A harvest that has come as far as an assembly. -/
structure Tracks (options : Options) (harvest : Harvest) (assembly : Assembly) : Prop
    extends harvest.Agrees options assembly where
  /-- So has its draft. -/
  draft : harvest.draft.Tracks assembly

end Harvest

namespace Draft.Tracks

variable {draft : Draft} {assembly : Assembly} {bracket : Bracket}

/-- The innermost open bracket of a draft is that of the assembly. -/
theorem getLast?_openings (tracks : draft.Tracks assembly) :
    draft.openings.getLast? = assembly.frames.head?.map fun frame => frame.placed.opening := by
  -- The draft keeps its brackets in the order in which they were opened, and the assembly in the
  -- other one.
  rw [tracks.shows.openings_eq, List.getLast?_reverse, List.map_map, List.head?_map]
  rfl

/-- What is wrong with an event is what the assembly reports when it takes the event in. -/
theorem collection_absorb (tracks : draft.Tracks assembly) (event : Event) :
    (assembly.absorb event).collection =
      ((draft.fault? event).elim assembly assembly.report).collection := by
  cases event with
  | turn c ahead old new => rfl
  | unterminated diagnostic => rfl
  | lexeme found =>
    obtain ⟨text, state, start, stop⟩ := found
    cases state with
    | opening bracket => exact assembly.collection_openBracket _ bracket
    | closing bracket =>
      simp only [Assembly.absorb, Assembly.closeBracket, fault?, tracks.getLast?_openings]
      split
      · -- There is no bracket open that could be closed.
        rename_i frames
        rw [frames, Assembly.collection_place]
        rfl
      · rename_i frame outer frames
        have state : frame.placed.opening.state = .opening frame.bracket :=
          (tracks.opened frame (frames ▸ List.mem_cons_self)).state_eq
        simp only [frames, List.head?_cons, Option.map_some, state, LexState.closedBy?,
          LexState.closingChar?, Option.getD_some, Option.some.injEq, LexState.closing.injEq]
        split <;> exact Assembly.collection_place _ _
    | _ => exact assembly.collection_place _

end Draft.Tracks

namespace Harvest.Tracks

variable {options : Options} {harvest : Harvest} {assembly : Assembly}

/-- Before the first event nothing has been found. -/
theorem empty (options : Options) (source : String) : Harvest.empty.Tracks options
    ((Assembly.initial options.collectDiagnostics).note (.analysing source)) :=
  -- The lexer and the assembly start with nothing, behind the same first record.
  ⟨⟨rfl, rfl⟩, (Draft.Tracks.initial _).note _⟩

/-- Every event is taken in by the harvest as it is by the assembly. -/
theorem take? (tracks : harvest.Tracks options assembly) (event : Event)
    (single : ∀ found, event = .lexeme found → found.state.isBracket = true →
      ∃ c, found.value = .singleton c) : ∃ other, harvest.take? options event = some other ∧
      other.Tracks options (assembly.absorb event) := by
  obtain ⟨draft, absorbed, tracked⟩ := tracks.draft.absorb event single
  -- What is wrong with the event is reported first, which the draft has no part in.
  have reported : ((harvest.draft.fault? event).elim harvest (harvest.diagnose options)).Agrees
      options ((harvest.draft.fault? event).elim assembly assembly.report) := by
    cases harvest.draft.fault? event with
    | none => exact tracks.toAgrees
    | some diagnostic => exact tracks.toAgrees.diagnose diagnostic
  have draft_eq : ((harvest.draft.fault? event).elim harvest (harvest.diagnose options)).draft =
      harvest.draft := by
    cases harvest.draft.fault? event with
    | none => rfl
    | some diagnostic => exact draft_diagnose options harvest diagnostic
  have collected := reported.of_collection (tracks.draft.collection_absorb event)
  refine ⟨⟨draft, _⟩, ?_, ⟨collected.chosen, collected.diagnostics_eq⟩, tracked⟩
  rw [Harvest.take?, draft_eq, absorbed]
  rfl

/-- All the events of a scan can be taken in. -/
theorem foldlM (tracks : harvest.Tracks options assembly) (events : List Event)
    (single : ∀ found, .lexeme found ∈ events → found.state.isBracket = true →
      ∃ c, found.value = .singleton c) :
    ∃ other, events.foldlM (Harvest.take? options) harvest = some other ∧
      other.Tracks options (events.foldl Assembly.absorb assembly) := by
  -- The induction is on the events, and each of them is taken in on both sides.
  induction events generalizing harvest assembly with
  | nil => exact ⟨harvest, rfl, tracks⟩
  | cons event rest ih =>
    obtain ⟨next, taken, tracked⟩ := tracks.take? event fun found same =>
      single found (same ▸ List.mem_cons_self)
    obtain ⟨other, run, reached⟩ := ih tracked fun found member =>
      single found (List.mem_cons_of_mem _ member)
    refine ⟨other, ?_, reached⟩
    rw [List.foldlM_cons, taken]
    exact run

/-- The brackets that are still open are reported on both sides, and nothing else changes. -/
theorem drain (tracks : harvest.Tracks options assembly) :
    (harvest.drain options).Agrees options assembly.reportUnclosed ∧
      (harvest.drain options).draft.forest = assembly.reportUnclosed.forest := by
  -- Both go from the innermost bracket outwards.
  have openings : harvest.draft.openings.reverse =
      assembly.frames.map fun frame => frame.placed.opening := by
    rw [tracks.draft.shows.openings_eq, List.reverse_reverse, List.map_map]
    rfl
  obtain ⟨reported, draft_eq⟩ := tracks.toAgrees.foldl_diagnose tracks.draft.opened
  unfold Harvest.drain
  rw [openings, List.foldl_map]
  refine ⟨⟨reported.chosen, reported.diagnostics_eq⟩, ?_⟩
  rw [← tracks.draft.reportUnclosed.forest_eq, ← draft_eq]

end Harvest.Tracks

namespace Lexer

/-- Whatever a lexer has been called for before, it reads a source as a lexer does that has just
been made, and it collects its diagnostics if that has been chosen. -/
theorem exists_analyseWithDiagnostics? (lexer : Lexer) (source : String) : ∃ left,
    lexer.analyseWithDiagnostics? source = some (((analyse source).forest,
      if lexer.options.collectDiagnostics then (analyse source).diagnostics else []), left) ∧
      left.options = lexer.options := by
  -- Taking in all that the scan finds keeps the harvest and an assembly in step.
  have finds := (Scan.keeps_initial.run source.toList).finish
  obtain ⟨harvest, taken, tracks⟩ := (Harvest.Tracks.empty lexer.options source).foldlM _ finds
  obtain ⟨agrees, forest_eq⟩ := tracks.drain
  have diagnostics_eq := agrees.diagnostics_eq
  -- The harvest of the lexer is that of an assembly of the source, which the options decide on.
  have assembly_eq : ((Event.ofSource source).foldl Assembly.absorb ((Assembly.initial
      lexer.options.collectDiagnostics).note (.analysing source))).reportUnclosed =
      .ofSource lexer.options source := rfl
  rw [Event.ofSource] at assembly_eq
  rw [assembly_eq] at forest_eq diagnostics_eq
  have forest_eq : (harvest.drain lexer.options).draft.forest = (analyse source).forest :=
    forest_eq.trans (forest_analyse_options source lexer.options {})
  have diagnostics_eq : (harvest.drain lexer.options).diagnostics =
      if lexer.options.collectDiagnostics then (analyse source).diagnostics else [] :=
    diagnostics_eq.trans (diagnostics_analyse_eq_ite source lexer.options)
  -- What the lexer holds in the end are the scan and that harvest, which it hands over.
  let scan := (Scan.initial.run source.toList).finish
  have resumed : lexer.reset.resume? scan =
      some ⟨lexer.options, scan.mode, scan.pending, scan.start, harvest⟩ := by
    rw [resume?]
    exact congrArg (Option.bind · _) taken
  refine ⟨⟨lexer.options, scan.mode, scan.pending, scan.start,
    (harvest.drain lexer.options).handOver⟩, ?_, rfl⟩
  rw [analyseWithDiagnostics?_eq, resumed, ← forest_eq, ← diagnostics_eq]
  rfl

end Lexer

/-- What a lexer with some options answers to a call if it is the first one. -/
def Call.answer (options : Options) : Call → Answer
  | .analyse source => .forest (XQueryLexer.analyse source).forest
  | .analyseWithDiagnostics source =>
    .diagnosed (XQueryLexer.analyse source).forest
      (if options.collectDiagnostics then (XQueryLexer.analyse source).diagnostics else [])

namespace Lexer

/-- Whatever a lexer has been called for before, it answers a call, and keeps its options. -/
theorem exists_call? (lexer : Lexer) (call : Call) : ∃ left,
    lexer.call? call = some (call.answer lexer.options, left) ∧ left.options = lexer.options := by
  -- The first call gives its forest away only, and the second one its diagnostics too.
  cases call with
  | analyse source =>
    obtain ⟨left, answered, same⟩ := lexer.exists_analyseWithDiagnostics? source
    refine ⟨left, ?_, same⟩
    rw [call?, analyse?, answered]
    rfl
  | analyseWithDiagnostics source =>
    obtain ⟨left, answered, same⟩ := lexer.exists_analyseWithDiagnostics? source
    refine ⟨left, ?_, same⟩
    rw [call?, answered]
    rfl

/-- In whatever state a lexer is, new or left behind by other calls, it answers all calls. The
forest of each one is that of its source alone, and the diagnostics are those of its source if they
are to be collected. -/
theorem session?_eq (lexer : Lexer) (calls : List Call) :
    lexer.session? calls = some (calls.map (Call.answer lexer.options)) := by
  -- Each call leaves a lexer behind with the same options, in which the others are answered.
  induction calls generalizing lexer with
  | nil => rfl
  | cons call rest ih =>
    obtain ⟨left, answered, same⟩ := lexer.exists_call? call
    rw [session?, answered]
    simp only [Option.bind_eq_bind, Option.bind_some, ih, same]
    rfl

/-- The comment and the bracket that the first call leaves open mean nothing to the second one. -/
example : new.session? [.analyse "a((: b", .analyseWithDiagnostics ")"] =
    some [.forest [.leaf { Token.ofState "a" (.word .bare) ⟨0, 1⟩ with kind := .function },
        .group (.ofState "(" (.opening .round) ⟨1, 2⟩) [.leaf (.ofState "(: b" .comment ⟨2, 6⟩)]],
      .diagnosed [.leaf { Token.ofState ")" (.closing .round) ⟨0, 1⟩ with error := true }]
        [⟨.unmatchedCloser ")", 0⟩]] := by
  decide +kernel

end Lexer

end XQueryLexer
