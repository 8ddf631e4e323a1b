import SinglePass.Proofs.Correspondence.Reports
import SinglePass.Proofs.Engine.Conservation
import SinglePass.Proofs.Engine.Timely
import SinglePass.Proofs.Scanning.Lines

/-!
# A source that fails

A failure to read acts like the end of the source, with one fault more.  Whatever comes behind it
has no influence.  The report on a program of Simple that fails behind its lines is the report on
the lines (`failure_ends_source`): the failure is added to it if the run came to the end of the
lines, and stands there in front of the first fault at that place.

The two runs are compared exactly but for failures to read (`Likeness.same`), since the tokens are
the same and only the recorded faults differ.  Where the failure is presented follows from when it
is recorded: with the token that ends the source, before anything else is found there.
-/

namespace SinglePass

variable {κ τ ω : Type}

/-! ## Where a failure goes in a report -/

namespace Diagnostic

/-- Put a fault in front of the first one at its position, or at the end if there is none. -/
def insertAt (d : Diagnostic κ τ) : List (Diagnostic κ τ) → List (Diagnostic κ τ)
  | [] => [d]
  | e :: faults => if e.position = d.position then d :: e :: faults else e :: insertAt d faults

/-- A fault is inserted in front of those at its position. -/
theorem insertAt_append {d : Diagnostic κ τ} {before after : List (Diagnostic κ τ)}
    (hbefore : ∀ e ∈ before, e.position ≠ d.position)
    (hafter : ∀ e ∈ after, e.position = d.position) :
    insertAt d (before ++ after) = before ++ d :: after := by
  induction before with
  | nil =>
    cases after with
    | nil => rfl
    | cons e after => exact if_pos (hafter e List.mem_cons_self)
  | cons e before ih =>
    rw [List.cons_append, insertAt, if_neg (hbefore e List.mem_cons_self),
      ih fun e he => hbefore e (List.mem_cons_of_mem _ he), List.cons_append]

end Diagnostic

/-- A failure that is recorded where a run ends, and before anything else there, is presented in
front of what else is found there. -/
theorem State.Timely.sort_eq_insertAt {s : State κ τ ω} (h : s.Timely) {d : Diagnostic κ τ}
    (hio : s.sink.filter Diagnostic.isIo = [d]) (hd : d.position = s.lookahead.position) :
    Diagnostic.sort s.sink = d.insertAt (Diagnostic.sort (s.sink.filter (!·.isIo))) := by
  have hsorted : (Diagnostic.sort s.sink).filter Diagnostic.isIo = [d] := by
    rw [Diagnostic.filter_sort, hio]
    rfl
  obtain ⟨before, after, hsplit, hbefore, hfailure, hafter⟩ := List.filter_eq_cons_iff.1 hsorted
  have hscanning : d.isScanning = true := by
    cases d <;> first | rfl | nomatch hfailure
  have hothers : Diagnostic.sort (s.sink.filter (!·.isIo)) = before ++ after := by
    have hbefore' : ∀ e ∈ before, (!e.isIo) = true := fun e he => by simpa using hbefore e he
    have hafter' : ∀ e ∈ after, (!e.isIo) = true := fun e he => by
      simpa using List.filter_eq_nil_iff.1 hafter e he
    rw [← Diagnostic.filter_sort, hsplit, List.filter_append, List.filter_cons, hfailure,
      List.filter_eq_self.2 hbefore', List.filter_eq_self.2 hafter']
    rfl
  -- What is presented in front of the failure stands earlier in the source, and what is behind
  -- it at the same place, because nothing is recorded beyond the lookahead.
  have hfirst : ∀ e ∈ before, e.position ≠ d.position := by
    have herrors : (Diagnostic.sort s.sink).Pairwise fun e f =>
        f.isScanning = true → e.position ≠ f.position := h.errors
    rw [hsplit] at herrors
    exact fun e he =>
      (List.pairwise_append.1 herrors).2.2 e he d List.mem_cons_self hscanning
  have hlast : ∀ e ∈ after, e.position = d.position := by
    intro e he
    have hle : d.position ≤ e.position := by
      have horder := Diagnostic.sort_pairwise s.sink
      rw [hsplit] at horder
      exact (List.pairwise_cons.1 (List.pairwise_append.1 horder).2.1).1 e he
    have hmem : e ∈ Diagnostic.sort s.sink := by
      rw [hsplit]
      exact List.mem_append_right _ (List.mem_cons_of_mem _ he)
    have hrecorded := h.recorded e (Diagnostic.mem_sort.1 hmem)
    rw [← hd] at hrecorded
    exact Position.le_antisymm hrecorded hle
  rw [hothers, hsplit, Diagnostic.insertAt_append hfirst hlast]

/-- The report with other faults. -/
def Report.withErrors (report : Report κ τ ω) (errors : List (Diagnostic κ τ)) : Report κ τ ω :=
  { report with errors }

/-! ## The same tokens -/

/-- The comparison of two runs over the same tokens.  Failures to read are left out. -/
def Likeness.same (name : κ) : Likeness κ name where
  Like := Eq
  exact := true
  failures := false
  kind_eq h := congrArg Token.kind h
  text_eq _ h _ := congrArg Token.text h
  text_iff _ h h' _ _ := by rw [h, h']

section

variable {name : κ}

/-- Lists that agree pairwise are equal. -/
theorem eq_of_forall₂ {α : Type} {R : α → α → Prop} (hR : ∀ a b, R a b → a = b) {as bs : List α}
    (h : List.Forall₂ R as bs) : as = bs := by
  have heq : List.Forall₂ Eq as bs := h.imp hR
  rwa [List.forall₂_eq_eq_eq] at heq

/-- Symbols that match with equal tokens are equal. -/
theorem Symbol.Matches.eq {s s' : Symbol κ τ} (h : s.Matches Eq name s') : s = s' := by
  obtain ⟨token, type, sort⟩ := s
  obtain ⟨token', type', sort'⟩ := s'
  cases h.token
  cases h.type_eq
  cases h.sort_eq
  rfl

/-- Faults that match with equal tokens are equal. -/
theorem Diagnostic.Matches.eq {d d' : Diagnostic κ τ} (h : d.Matches Eq name d') : d = d' := by
  cases h with
  | lexical token => rw [token]
  | unexpected token expected => rw [token]
  | notDeclared token => rw [token]
  | alreadyDeclared token first_matches => rw [token, first_matches.eq]
  | typeConflict token found expected => rw [token]
  | custom token message_eq => rw [token, message_eq fun _ _ h => congrArg Token.text h]

/-- Tables that match with equal tokens are equal. -/
theorem Table.Matches.eq {t t' : Table κ τ} (h : t.Matches Eq name t') : t = t' :=
  Table.ext_symbols (eq_of_forall₂ (fun _ _ h => h.eq) h)

/-- Scopes that match with equal tokens are equal. -/
theorem Scope.Matches.eq {s s' : Scope κ τ} (h : s.Matches Eq name s') : s = s' := by
  induction h with
  | outermost table => rw [table.eq]
  | nested table _ ih => rw [table.eq, ih]

/-- Stacks that match with equal tokens are equal. -/
theorem ScopeStack.Matches.eq {s s' : ScopeStack κ τ} (h : s.Matches Eq name s') : s = s' := by
  obtain ⟨current, level⟩ := s
  obtain ⟨current', level'⟩ := s'
  obtain ⟨hcurrent, rfl⟩ := h
  cases hcurrent with
  | none => rfl
  | some hscope => rw [hscope.eq]

/-- With equal tokens, all but failures to read is compared. -/
theorem Likeness.keeps_same :
    (Likeness.same name).keeps = fun d : Diagnostic κ τ => !d.isIo :=
  funext fun _ => Bool.and_true _

/-- Faults that match are the same, failures to read apart. -/
theorem Likeness.SinkLike.filter_eq {sink sink' : List (Diagnostic κ τ)}
    (h : (Likeness.same name).SinkLike sink sink') :
    sink.filter (!·.isIo) = sink'.filter (!·.isIo) := by
  rw [Likeness.SinkLike, keeps_same] at h
  exact eq_of_forall₂ (fun _ _ h => h.eq) h

/-- Faults of which none is a failure to read. -/
theorem filter_eq_self_of_filter_isIo {sink : List (Diagnostic κ τ)}
    (h : sink.filter Diagnostic.isIo = []) : sink.filter (!·.isIo) = sink :=
  List.filter_eq_self.2 fun d hd => by simpa using List.filter_eq_nil_iff.1 h d hd

variable [TokenKind κ]

/-- Runs over sources with the same lines begin alike, failures to read apart. -/
theorem Likeness.Twin.initial_of_lines {l : Lexicon κ} {gap tail : List Char → Prop}
    (htiles : l.Tiles gap tail) {source source' : Source} (hlines : source'.lines = source.lines) :
    (Likeness.same name).Twin (State.initial l.classifier source : State κ τ (Symbol κ τ))
      (State.initial l.classifier source') := by
  refine .initial_of_stream ?_ ?_
  · rw [SinkLike, keeps_same, Cursor.filter_faults, Cursor.filter_faults]
    exact .nil
  · refine (Source.stream_alike htiles hlines).imp fun n n' h => ⟨h.token_eq.symm, ?_⟩
    rw [SinkLike, keeps_same, h.faults_eq, h.faults_eq']
    exact (Likeness.same name).lexicalFaults_matches rfl

/-- Of two runs over the same tokens the one has met no failure, and the other has met one if they
have come to the end. -/
theorem Likeness.Twin.report_eq {s s' : State κ τ (Symbol κ τ)}
    (h : (Likeness.same name).Twin s s') (timely : s'.Timely)
    (hnone : s.sink.filter Diagnostic.isIo = []) {d : Diagnostic κ τ}
    (hio : s'.sink.filter Diagnostic.isIo = if s.lookahead.isEnd then [d] else [])
    (hd : s.lookahead.isEnd = true → d.position = s'.lookahead.position) :
    Report.ofState s' =
      if s.lookahead.isEnd then
        (Report.ofState s).withErrors (d.insertAt (Report.ofState s).errors)
      else Report.ofState s := by
  have hsink : s'.sink.filter (!·.isIo) = s.sink := by
    rw [← h.sink.filter_eq, filter_eq_self_of_filter_isIo hnone]
  have hnotes : s.notes = s'.notes := eq_of_forall₂ (fun _ _ h => h.eq) (h.notes rfl)
  have hreport : Report.ofState s' =
      (Report.ofState s).withErrors (Diagnostic.sort s'.sink) := by
    rw [Report.ofState, Report.ofState, Report.withErrors, h.recovering_eq, (h.scopes rfl).eq,
      hnotes]
  cases hend : s.lookahead.isEnd with
  | false =>
    rw [hend, if_neg Bool.false_ne_true] at hio
    rw [if_neg Bool.false_ne_true, hreport, ← filter_eq_self_of_filter_isIo hio, hsink]
    rfl
  | true =>
    rw [hend, if_pos rfl] at hio
    rw [if_pos rfl, hreport, timely.sort_eq_insertAt hio (hd hend), hsink]
    rfl

end

/-! ## The failure in a run -/

section

variable [TokenKind κ] {l : Lexicon κ} {gap tail : List Char → Prop} {source : Source} {n : Nat}
  {s : State κ τ ω}

/-- Behind the last of some lines. -/
def Source.endPosition (lines : List String) : Position :=
  ⟨max 1 lines.length, (lines.getLast?.elim 0 String.length) + 1⟩

/-- A run that looks at the end of a source stands behind its lines. -/
theorem State.Reads.position_of_isEnd (htiles : l.Tiles gap tail)
    (h : s.Reads l.classifier source n) (hend : s.lookahead.isEnd = true) :
    s.lookahead.position = Source.endPosition source.lines := by
  obtain ⟨ts, eof, failure?, htiled, -⟩ := Source.tiled (τ := τ) htiles source
  have hmem : s.lookahead ∈ ts ++ [eof] := by
    rw [← htiled.map_token, Source.map_token_stream]
    exact List.mem_of_getElem? h.token_eq
  obtain hmem | hmem := List.mem_append.1 hmem
  · rw [htiled.ordinary _ hmem] at hend
    nomatch hend
  · have hnumber : 1 - 1 + source.lines.length = source.lines.length := by omega
    rw [List.mem_singleton.1 hmem, htiled.position_eq, hnumber]
    rfl

/-- A run has recorded the failure of its source if it looks at the end, and only then. -/
theorem State.Reads.io_eq (htiles : l.Tiles gap tail) (h : s.Reads l.classifier source n) :
    s.sink.filter Diagnostic.isIo =
      if s.lookahead.isEnd then (source.failure?.map (.io s.lookahead.position)).toList
      else [] := by
  have hsub : s.sink.filter Diagnostic.isIo =
      (s.sink.filter Diagnostic.isScanning).filter Diagnostic.isIo := by
    rw [List.filter_filter]
    refine List.filter_congr fun d _ => ?_
    cases d <;> rfl
  have hlexical (ts : List (Token κ)) :
      (ts.map Diagnostic.lexical : List (Diagnostic κ τ)).filter Diagnostic.isIo = [] := by
    simp [Diagnostic.isIo]
  rw [hsub, h.scanning_eq_of_tiles htiles, List.filter_append, hlexical, List.nil_append]
  split
  · cases source.failure? <;> rfl
  · rfl

/-- A run over a source that fails reports what a run over the same lines reports, and the failure
if it has come to the end of the lines. -/
theorem Likeness.Twin.report_of_failure {name : κ} {s s' : State κ τ (Symbol κ τ)}
    {source source' : Source} {n n' : Nat} {cause : String} (htiles : l.Tiles gap tail)
    (h : (Likeness.same name).Twin s s') (timely : s'.Timely)
    (hreads : s.Reads l.classifier source n) (hreads' : s'.Reads l.classifier source' n')
    (hnone : source.failure? = none) (hsome : source'.failure? = some cause) :
    Report.ofState s' =
      if s.lookahead.isEnd then
        (Report.ofState s).withErrors
          ((Diagnostic.io (Source.endPosition source'.lines) cause).insertAt
            (Report.ofState s).errors)
      else Report.ofState s := by
  have hlookahead : s.lookahead = s'.lookahead := h.lookahead
  have hposition : s.lookahead.isEnd = true →
      Source.endPosition source'.lines = s'.lookahead.position := by
    intro hend
    rw [hlookahead] at hend
    rw [hreads'.position_of_isEnd htiles hend]
  have hquiet := hreads.io_eq htiles
  rw [hnone, Option.map_none, Option.toList_none, ite_self] at hquiet
  refine h.report_eq timely hquiet ?_ hposition
  rw [hreads'.io_eq htiles, hsome, ← hlookahead]
  split
  · next hend =>
    rw [hposition hend, ← hlookahead]
    rfl
  · rfl

end

namespace Source

variable (lines : List String) (cause : String) (rest : Source)

/-- The lines before a failure are those that are read. -/
theorem lines_append_failure :
    Source.lines (lines.map .line ++ .failure cause :: rest) = lines := by
  induction lines with
  | nil => rfl
  | cons text lines ih => exact congrArg (text :: ·) ih

/-- The first failure is the one that ends the reading. -/
theorem failure?_append_failure :
    failure? (lines.map .line ++ .failure cause :: rest) = some cause := by
  induction lines with
  | nil => rfl
  | cons text lines ih => exact ih

/-- Lines that are given end with no failure. -/
theorem failure?_map_line : failure? (lines.map .line) = none := by
  induction lines with
  | nil => rfl
  | cons text lines ih => exact ih

end Source

/-! ## Programs of Simple -/

namespace Simple

/-- **A failure to read acts like the end of the source, with one fault more.**  If the run over the
lines has come to the token that ends them, the failure is put in front of the first fault at that
place, or at the end of the report; otherwise it is not noticed.  All else in the report is the
same, and what comes behind the failure has no influence. -/
theorem failure_ends_source (lines : List String) (cause : String) (rest : Source)
    (strategy : Strategy) :
    check strategy (lines.map .line ++ .failure cause :: rest) =
      if (run classifier program strategy (lines.map .line)).2.lookahead.isEnd then
        (check strategy (lines.map .line)).withErrors
          ((Diagnostic.io (Source.endPosition lines) cause).insertAt
            (check strategy (lines.map .line)).errors)
      else check strategy (lines.map .line) := by
  have hlines : Source.lines (lines.map .line ++ .failure cause :: rest) =
      Source.lines (lines.map .line) := by
    rw [Source.lines_append_failure, Source.lines_map_line]
  have hprogram : (Likeness.same Kind.ident).Beside Eq program.toEnd program.toEnd :=
    .toEnd beside_program
  obtain ⟨-, hfinal⟩ := hprogram strategy (.inl rfl) _ _ (.initial_of_lines tiles hlines)
  have hdriven : Driven program := .composed composed_program
  obtain ⟨n, hreads⟩ := hdriven.reads_run classifier strategy (lines.map .line)
  obtain ⟨n', hreads'⟩ :=
    hdriven.reads_run classifier strategy (lines.map .line ++ .failure cause :: rest)
  have htimely : (run classifier program strategy
      (lines.map .line ++ .failure cause :: rest)).2.Timely :=
    (minds_program.toEnd strategy _ (State.timely_initial tiles _) (Minds.seen_nil _)).timely
  have hreport := hfinal.report_of_failure tiles htimely hreads hreads'
    (Source.failure?_map_line lines) (Source.failure?_append_failure lines cause rest)
  rw [Source.lines_append_failure] at hreport
  exact hreport

end Simple

end SinglePass
