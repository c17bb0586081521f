import XQueryLexer.Analysis

/-! Whether diagnostics are collected makes no difference for anything else, and those that are
collected are those in the log. -/

namespace XQueryLexer

/-- The diagnostic that a record is about, if it is about one. -/
def Record.diagnostic? : Record → Option Diagnostic
  | diagnosed diagnostic => some diagnostic
  | _ => none

/-- The warnings in a log are its diagnostics. -/
theorem Record.message_warn (log : List Record) :
    (log.filter (·.level = .warn)).map message =
      (log.filterMap diagnostic?).map Diagnostic.message := by
  -- A diagnostic is the only record that is a warning, and it is written in the same words.
  induction log with
  | nil => rfl
  | cons record rest ih =>
    cases record with
    | diagnosed diagnostic => exact congrArg (diagnostic.message :: ·) ih
    | _ => exact ih

namespace Assembly

/-- An assembly as it is where no diagnostics are collected. -/
def uncollected (assembly : Assembly) : Assembly :=
  { assembly with collecting := false, diagnostics := #[] }

variable (assembly : Assembly)

/-- A record is put into the log in the same way. -/
theorem uncollected_note (record : Record) :
    (assembly.note record).uncollected = assembly.uncollected.note record := rfl

/-- A report is the same apart from what is collected. -/
theorem uncollected_report (diagnostic : Diagnostic) :
    (assembly.report diagnostic).uncollected = assembly.uncollected.report diagnostic := by
  -- The diagnostic is logged in any case, and what is collected is left out on both sides.
  simp only [report]
  split <;> rfl

/-- The latest real token gets the same role. -/
theorem uncollected_relabel (kind : Option Kind) :
    (assembly.relabel kind).uncollected = assembly.uncollected.relabel kind := by
  -- Both sides look at the same scope, which decides whether anything is relabelled.
  have scope : assembly.uncollected.scope = assembly.scope := rfl
  unfold relabel
  rw [scope]
  cases kind <;> cases assembly.scope.latestToken? <;> rfl

/-- A token settles the same role. -/
theorem uncollected_settle (token : Token) :
    (assembly.settle token).uncollected = assembly.uncollected.settle token :=
  -- The record of the token comes first on both sides.
  uncollected_relabel _ _

/-- A token is announced in the same way, and gets the same role. -/
theorem uncollected_announce (token : Token) :
    assembly.uncollected.announce token =
      ((assembly.announce token).1.uncollected, (assembly.announce token).2) := by
  -- The token that has been settled is the same, and with it the labels.
  have labels : (assembly.uncollected.settle token).labels token =
      (assembly.settle token).labels token := by
    rw [← uncollected_settle]
    rfl
  simp only [announce, labels]
  rw [uncollected_relabel, uncollected_settle]

/-- A token is placed in the same way. -/
theorem uncollected_place (token : Token) :
    (assembly.place token).uncollected = assembly.uncollected.place token := by
  -- What is announced is placed behind the same trees.
  simp only [place, uncollected_announce]
  rfl

/-- A bracket is opened in the same way. -/
theorem uncollected_openBracket (bracket : Bracket) (token : Token) :
    (assembly.openBracket bracket token).uncollected =
      assembly.uncollected.openBracket bracket token := by
  -- What is announced stands in front of the same scope.
  simp only [openBracket, uncollected_announce]
  rfl

/-- A bracket is closed, or is an error, in the same way. -/
theorem uncollected_closeBracket (bracket : Bracket) (token : Token) :
    (assembly.closeBracket bracket token).uncollected =
      assembly.uncollected.closeBracket bracket token := by
  -- Both sides look at the same open brackets.
  have frames : assembly.uncollected.frames = assembly.frames := rfl
  unfold closeBracket
  rw [frames]
  split
  · rw [uncollected_place, uncollected_report]
  · split
    · rw [uncollected_place]
      rfl
    · rw [uncollected_place, uncollected_report]

/-- An event is taken in in the same way. -/
theorem uncollected_absorb (event : Event) :
    (assembly.absorb event).uncollected = assembly.uncollected.absorb event := by
  cases event with
  | turn c ahead old new => exact assembly.uncollected_note _
  | unterminated diagnostic => exact assembly.uncollected_report diagnostic
  | lexeme found =>
    -- The class of a lexeme decides on both sides what is done with its token.
    simp only [absorb]
    cases found.state with
    | opening bracket => exact assembly.uncollected_openBracket bracket _
    | closing bracket => exact assembly.uncollected_closeBracket bracket _
    | _ => exact assembly.uncollected_place _

/-- Events are taken in in the same way, one after the other. -/
theorem uncollected_foldl_absorb (events : List Event) :
    (events.foldl absorb assembly).uncollected = events.foldl absorb assembly.uncollected := by
  -- The first event is taken in in the same way, and then the others are.
  induction events generalizing assembly with
  | nil => rfl
  | cons event rest ih => rw [List.foldl_cons, List.foldl_cons, ih, uncollected_absorb]

/-- The same brackets are still open at the end. -/
theorem uncollected_reportUnclosed :
    assembly.reportUnclosed.uncollected = assembly.uncollected.reportUnclosed := by
  -- The brackets that are reported do not change while they are.
  have frames : assembly.uncollected.frames = assembly.frames := rfl
  unfold reportUnclosed
  rw [frames]
  clear frames
  generalize assembly.frames = frames
  induction frames generalizing assembly with
  | nil => rfl
  | cons frame outer ih => rw [List.foldl_cons, List.foldl_cons, ih, uncollected_report]

/-- Whatever the options are, the same is assembled of a source apart from what is collected. -/
theorem uncollected_ofSource (options other : Options) (source : String) :
    (ofSource options source).uncollected = (ofSource other source).uncollected := by
  -- Every step is the same without what is collected, and then the options are left out.
  simp only [ofSource, uncollected_reportUnclosed, uncollected_foldl_absorb, uncollected_note]
  rfl

/-- An assembly in which just the diagnostics of the log are collected, or none if none are to
be. -/
structure Collects (collecting : Bool) (assembly : Assembly) : Prop where
  /-- What has been chosen stays as it was. -/
  collecting_eq : assembly.collecting = collecting
  /-- Nothing has been collected but what has been logged. -/
  diagnostics_eq : assembly.diagnostics.toList =
    if collecting then assembly.log.toList.filterMap Record.diagnostic? else []

namespace Collects

variable {assembly : Assembly} {collecting : Bool} (collects : assembly.Collects collecting)

include collects

/-- Where the assembly has come to makes no difference. -/
theorem move (frames : List Frame) (scope : Scope) :
    Collects collecting { assembly with frames, scope } :=
  -- Agreement speaks of the diagnostics only, which are no part of frames or scope.
  ⟨collects.collecting_eq, collects.diagnostics_eq⟩

/-- A record that is about no diagnostic changes nothing. -/
theorem note {record : Record} (other : record.diagnostic? = none) :
    (assembly.note record).Collects collecting :=
  ⟨collects.collecting_eq, by simp [Assembly.note, other, collects.diagnostics_eq]⟩

/-- A report is logged, and it is collected where diagnostics are. -/
theorem report (diagnostic : Diagnostic) : (assembly.report diagnostic).Collects collecting := by
  obtain ⟨collecting_eq, diagnostics_eq⟩ := collects
  simp only [Assembly.report, collecting_eq]
  split
  · -- Where diagnostics are collected, the log and what is collected grow by the same one.
    rename_i chosen
    refine ⟨collecting_eq, ?_⟩
    simp_all [Assembly.note, Record.diagnostic?]
  · -- Where they are not, nothing is collected, whatever the log says.
    rename_i refused
    refine ⟨collecting_eq, ?_⟩
    simp_all [Assembly.note]

/-- A new role is logged without a diagnostic. -/
theorem relabel (kind : Option Kind) : (assembly.relabel kind).Collects collecting := by
  -- There is a token to be relabelled and a role for it, or nothing happens.
  unfold Assembly.relabel
  split
  · exact (collects.move _ _).note rfl
  · exact collects

/-- A token is announced without a diagnostic. -/
theorem announce (token : Token) : (assembly.announce token).1.Collects collecting := by
  -- The record of the token is about no diagnostic, and neither are those of the two roles.
  have noted : (assembly.note (.token token.value token.state token.kind
      assembly.frames.length)).Collects collecting := collects.note rfl
  exact (noted.relabel _).relabel _

/-- A token is placed without a diagnostic. -/
theorem place (token : Token) : (assembly.place token).Collects collecting :=
  -- Announcing the token is all that could collect something, and the scope is moved on after it.
  (collects.announce token).move _ _

/-- A bracket is opened without a diagnostic. -/
theorem openBracket (bracket : Bracket) (token : Token) :
    (assembly.openBracket bracket token).Collects collecting :=
  (collects.announce token).move _ _

/-- A closing bracket that is an error is reported, and no other one is. -/
theorem closeBracket (bracket : Bracket) (token : Token) :
    (assembly.closeBracket bracket token).Collects collecting := by
  -- No bracket is open, or the innermost one is closed, or another one is open.
  unfold Assembly.closeBracket
  split
  · exact (collects.report _).place _
  · split
    · exact (collects.move _ _).place token
    · exact (collects.report _).place _

/-- Every event leaves the log and what is collected in agreement. -/
theorem absorb (event : Event) : (assembly.absorb event).Collects collecting := by
  cases event with
  | turn c ahead old new => exact collects.note rfl
  | unterminated diagnostic => exact collects.report diagnostic
  | lexeme found =>
    -- The class of a lexeme decides what is done with its token.
    simp only [Assembly.absorb]
    cases found.state with
    | opening bracket => exact collects.openBracket bracket _
    | closing bracket => exact collects.closeBracket bracket _
    | _ => exact collects.place _

/-- Some events leave the log and what is collected in agreement. -/
theorem foldl_absorb (events : List Event) :
    (events.foldl Assembly.absorb assembly).Collects collecting := by
  -- Each event does.
  induction events generalizing assembly with
  | nil => exact collects
  | cons event rest ih => exact ih (collects.absorb event)

/-- Each bracket that is still open is logged, and it is collected where diagnostics are. -/
theorem reportUnclosed : assembly.reportUnclosed.Collects collecting := by
  -- The induction is on the brackets, which the reports leave alone.
  unfold Assembly.reportUnclosed
  generalize assembly.frames = frames
  induction frames generalizing assembly with
  | nil => exact collects
  | cons frame outer ih => exact ih (collects.report _)

end Collects

/-- What is collected of a source is what is logged, if anything is to be collected. -/
theorem collects_ofSource (options : Options) (source : String) :
    (ofSource options source).Collects options.collectDiagnostics := by
  -- Nothing is collected at the start, and the log has a single record, which is about no
  -- diagnostic.
  have start : (initial options.collectDiagnostics).Collects options.collectDiagnostics :=
    ⟨rfl, by simp [initial]⟩
  exact ((start.note rfl).foldl_absorb _).reportUnclosed

end Assembly

section Options

variable (source : String) (options other : Options)

/-- The forest of a source does not depend on the options. -/
theorem forest_analyse_options :
    (analyse source options).forest = (analyse source other).forest := by
  -- The two assemblies are the same but for what is collected, which the forest does not look at.
  have same := congrArg Assembly.forest (Assembly.uncollected_ofSource options other source)
  exact same

/-- Nor does the log. -/
theorem log_analyse_options : (analyse source options).log = (analyse source other).log := by
  -- The two assemblies are the same but for what is collected, and the log is the same.
  have same := congrArg Assembly.log (Assembly.uncollected_ofSource options other source)
  exact congrArg Array.toList same

/-- The diagnostics of a source are those in its log, if they are collected. -/
theorem diagnostics_analyse_options : (analyse source options).diagnostics =
    if options.collectDiagnostics then
      (analyse source other).log.filterMap Record.diagnostic?
    else [] := by
  -- Both logs are the same, so that it does not matter which of them is looked at.
  rw [log_analyse_options source other options]
  exact (Assembly.collects_ofSource options source).diagnostics_eq

/-- The diagnostics of a source are always the same, if they are collected. -/
theorem diagnostics_analyse_eq_ite : (analyse source options).diagnostics =
    if options.collectDiagnostics then (analyse source).diagnostics else [] := by
  -- Both sides are read off the log, which does not depend on the options.
  rw [diagnostics_analyse_options source options {}, diagnostics_analyse_options source {} {}]
  rfl

end Options

end XQueryLexer
