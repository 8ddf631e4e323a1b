import SinglePass.Proofs.Correspondence.Rules
import SinglePass.Proofs.Scanning.Lossless

/-!
# Layout and names do not matter

Two sources of Simple may differ in their layout, and in the names that they use, one name for
another throughout.  Then they are told the same (`layout_and_names_irrelevant`): under either
strategy their reports have the same faults, bound to tokens with the same numbers, in the same
order, and the same symbols.

Both runs are compared exactly (`beside_program`).  Positions are looked at only when the faults are
sorted, and they grow with the number of the token (`stableSort_matches`).
-/

namespace SinglePass

/-! ## Sorting -/

section

variable {α β : Type} {R : α → β → Prop} {le : α → α → Bool} {le' : β → β → Bool}

/-- Inserting keeps pairs together if their order is told alike. -/
theorem insertSorted_matches (hle : ∀ a a' b b', R a b → R a' b' → le a a' = le' b b')
    {a : α} {b : β} (hab : R a b) {as : List α} {bs : List β} (h : List.Forall₂ R as bs) :
    List.Forall₂ R (insertSorted le a as) (insertSorted le' b bs) := by
  induction h with
  | nil => exact .cons hab .nil
  | @cons a' b' _ _ hab' htail ih =>
    rw [insertSorted, insertSorted, hle a a' b b' hab hab']
    split
    · exact .cons hab (.cons hab' htail)
    · exact .cons hab' ih

/-- Lists that correspond do so when they are sorted, if the orders correspond. -/
theorem stableSort_matches (hle : ∀ a a' b b', R a b → R a' b' → le a a' = le' b b')
    {as : List α} {bs : List β} (h : List.Forall₂ R as bs) :
    List.Forall₂ R (stableSort le as) (stableSort le' bs) := by
  induction h with
  | nil => exact .nil
  | cons hab _ ih => exact insertSorted_matches hle hab ih

end

/-! ## Tokens with the same number -/

section

variable {κ τ : Type}

/-- Two tokens at one place of their sources. -/
def SamePlace (ts ts' : List (Token κ)) (t t' : Token κ) : Prop :=
  ∃ i : Nat, ts[i]? = some t ∧ ts'[i]? = some t'

/-- Two lists of equal length have the same places. -/
theorem forall₂_samePlace {ts ts' : List (Token κ)} (h : ts.length = ts'.length) :
    List.Forall₂ (SamePlace ts ts') ts ts' :=
  List.forall₂_iff_get.2 ⟨h, fun i hi hi' =>
    ⟨i, List.getElem?_eq_getElem hi, List.getElem?_eq_getElem hi'⟩⟩

/-- In reading order, positions grow with the numbers of the tokens. -/
theorem position_le_iff {ts : List (Token κ)}
    (increasing : ts.Pairwise fun t u => t.position < u.position) {i j : Nat} {t u : Token κ}
    (ht : ts[i]? = some t) (hu : ts[j]? = some u) : t.position ≤ u.position ↔ i ≤ j := by
  obtain ⟨hi, rfl⟩ := List.getElem?_eq_some_iff.1 ht
  obtain ⟨hj, rfl⟩ := List.getElem?_eq_some_iff.1 hu
  have hlt := List.pairwise_iff_getElem.1 increasing
  constructor
  · intro hle
    refine Nat.le_of_not_lt fun hji => ?_
    exact Position.lt_irrefl (Position.lt_of_le_of_lt hle (hlt j i hj hi hji))
  · intro hij
    obtain hij | rfl := Nat.lt_or_eq_of_le hij
    · exact Position.le_of_lt (hlt i j hi hj hij)
    · exact Position.le_refl _

/-- The order of tokens is told by their places, on both sides alike. -/
theorem SamePlace.position_le_iff {ts ts' : List (Token κ)}
    (increasing : ts.Pairwise fun t u => t.position < u.position)
    (increasing' : ts'.Pairwise fun t u => t.position < u.position) {t t' u u' : Token κ}
    (ht : SamePlace ts ts' t t') (hu : SamePlace ts ts' u u') :
    t.position ≤ u.position ↔ t'.position ≤ u'.position := by
  obtain ⟨i, hi, hi'⟩ := ht
  obtain ⟨j, hj, hj'⟩ := hu
  rw [SinglePass.position_le_iff increasing hi hj, SinglePass.position_le_iff increasing' hi' hj']

/-- Faults at tokens with the same numbers are presented in the same order. -/
theorem Diagnostic.sort_matches {ts ts' : List (Token κ)} {name : κ}
    (increasing : ts.Pairwise fun t u => t.position < u.position)
    (increasing' : ts'.Pairwise fun t u => t.position < u.position)
    {sink sink' : List (Diagnostic κ τ)}
    (h : List.Forall₂ (Diagnostic.Matches (SamePlace ts ts') name) sink sink') :
    List.Forall₂ (Diagnostic.Matches (SamePlace ts ts') name) (sort sink) (sort sink') := by
  refine stableSort_matches (fun d e d' e' hd he => ?_) h
  obtain ⟨t, t', ht, hposition, hposition'⟩ := hd.position
  obtain ⟨u, u', hu, hposition₂, hposition₂'⟩ := he.position
  rw [hposition, hposition', hposition₂, hposition₂']
  exact decide_eq_decide.2 (ht.position_le_iff increasing increasing' hu)

/-! ## The start of two runs -/

variable [TokenKind κ] {name : κ} {L : Likeness κ name}

/-- Tokens that stand for each other bring the same lexical faults. -/
theorem Likeness.lexicalFaults_matches {t t' : Token κ} (h : L.Like t t') :
    List.Forall₂ (Diagnostic.Matches (τ := τ) L.Like name) (Cursor.lexicalFaults t)
      (Cursor.lexicalFaults t') := by
  rw [Cursor.lexicalFaults, Cursor.lexicalFaults, L.kind_eq h]
  split
  · exact .cons (.lexical h) .nil
  · exact .nil

/-- Tokens that stand for each other are read with faults that do. -/
theorem Likeness.scanned_matches {l l' : List (Scanned κ τ)}
    (hfaults : ∀ n ∈ l, n.faults = Cursor.lexicalFaults n.token)
    (hfaults' : ∀ n ∈ l', n.faults = Cursor.lexicalFaults n.token)
    (h : List.Forall₂ L.Like (l.map Scanned.token) (l'.map Scanned.token)) :
    List.Forall₂ L.ScannedLike l l' := by
  rw [List.forall₂_map_left_iff, List.forall₂_map_right_iff] at h
  induction h with
  | nil => exact .nil
  | @cons n n' _ _ htoken _ ih =>
    refine .cons ⟨htoken, .of_matches ?_⟩ (ih (fun m hm => hfaults m (List.mem_cons_of_mem _ hm))
      fun m hm => hfaults' m (List.mem_cons_of_mem _ hm))
    rw [hfaults n List.mem_cons_self, hfaults' n' List.mem_cons_self]
    exact L.lexicalFaults_matches htoken

/-- Runs begin alike if the tokens of their sources stand for each other. -/
theorem Likeness.Twin.initial_of_stream {classifier : Classifier κ} {source source' : Source}
    (hstart : L.SinkLike ((Cursor.start source).faults : List (Diagnostic κ τ))
      (Cursor.start source').faults)
    (hstream : List.Forall₂ L.ScannedLike (source.stream (τ := τ) classifier)
      (source'.stream classifier)) :
    L.Twin (State.initial classifier source : State κ τ (Symbol κ τ))
      (State.initial classifier source') := by
  obtain ⟨first, more, hfirst, hinitial⟩ :=
    State.initial_eq (τ := τ) (ω := Symbol κ τ) classifier source
  obtain ⟨first', more', hfirst', hinitial'⟩ :=
    State.initial_eq (τ := τ) (ω := Symbol κ τ) classifier source'
  rw [hfirst, hfirst', List.forall₂_cons] at hstream
  obtain ⟨hhead, htail⟩ := hstream
  rw [hinitial, hinitial']
  exact ⟨hhead.token, htail, rfl, hstart.append hhead.faults, fun _ => ⟨.none, rfl⟩, fun _ => .nil⟩

/-- So they do if the sources can be read. -/
theorem Likeness.Twin.initial {classifier : Classifier κ} {source source' : Source}
    (readable : source.Readable) (readable' : source'.Readable)
    (h : List.Forall₂ L.Like (source.tokens classifier) (source'.tokens classifier)) :
    L.Twin (State.initial classifier source : State κ τ (Symbol κ τ))
      (State.initial classifier source') := by
  refine .initial_of_stream ?_ (L.scanned_matches
    (fun n => Source.faults_eq_lexicalFaults readable)
    (fun n => Source.faults_eq_lexicalFaults readable') ?_)
  · rw [(Cursor.Sound.start readable).faults_eq, (Cursor.Sound.start readable').faults_eq]
    exact .nil
  · rwa [Source.map_token_stream, Source.map_token_stream]

end

namespace Simple

/-! ## Sources and reports -/

/-- Two sources with the same tokens, up to their positions and a renaming: the names of the first
are renamed by `ρ`, which takes no two of them to one. -/
structure Renaming (ρ : String → String) (source source' : Source) : Prop where
  tokens : List.Forall₂
    (fun t t' : Token Kind => t.kind = t'.kind ∧
      t'.text = if t.kind = .ident then ρ t.text else t.text)
    (source.tokens classifier) (source'.tokens classifier)
  injective : ∀ t ∈ source.tokens classifier, ∀ u ∈ source.tokens classifier,
    t.kind = .ident → u.kind = .ident → ρ t.text = ρ u.text → t.text = u.text

/-- What two sources are told is the same, up to positions and names. -/
structure Corresponds (source source' : Source)
    (report report' : Report Kind Ty (Symbol Kind Ty)) : Prop where
  /-- The faults, in presentation order, are of the same sorts, at tokens with the same numbers, and
  they say the same. -/
  errors : List.Forall₂
    (Diagnostic.Matches (SamePlace (source.tokens classifier) (source'.tokens classifier)) .ident)
    report.errors report'.errors
  /-- The symbols that were declared have the same sorts, types and bounds, in the same order. -/
  notes : List.Forall₂
    (Symbol.Matches (SamePlace (source.tokens classifier) (source'.tokens classifier)) .ident)
    report.notes report'.notes
  recovering_eq : report.recovering = report'.recovering
  level_eq : report.scopes.level = report'.scopes.level

variable {ρ : String → String} {source source' : Source}

namespace Renaming

/-- Tokens with the same number. -/
theorem samePlace (h : Renaming ρ source source') {t t' : Token Kind}
    (ht : SamePlace (source.tokens classifier) (source'.tokens classifier) t t') :
    t ∈ source.tokens classifier ∧ t.kind = t'.kind ∧
      t'.text = if t.kind = .ident then ρ t.text else t.text := by
  obtain ⟨i, hi, hi'⟩ := ht
  obtain ⟨hlt, rfl⟩ := List.getElem?_eq_some_iff.1 hi
  obtain ⟨hlt', rfl⟩ := List.getElem?_eq_some_iff.1 hi'
  exact ⟨List.getElem_mem hlt, h.tokens.get hlt hlt'⟩

/-- The exact comparison of the two sources. -/
def likeness (h : Renaming ρ source source') : Likeness Kind .ident where
  Like := SamePlace (source.tokens classifier) (source'.tokens classifier)
  exact := true
  failures := true
  kind_eq ht := (h.samePlace ht).2.1
  text_eq _ ht hkind := by
    rw [(h.samePlace ht).2.2, if_neg hkind]
  text_iff _ ht hu hkind hkind' := by
    obtain ⟨hmem, -, htext⟩ := h.samePlace ht
    obtain ⟨hmem', -, htext'⟩ := h.samePlace hu
    rw [htext, htext', if_pos hkind, if_pos hkind']
    exact ⟨congrArg ρ, h.injective _ hmem _ hmem' hkind hkind'⟩

/-- Renaming a source makes its tokens stand for those of the other. -/
theorem forall₂_like (h : Renaming ρ source source') :
    List.Forall₂ h.likeness.Like (source.tokens classifier) (source'.tokens classifier) :=
  forall₂_samePlace h.tokens.length_eq

end Renaming

/-- Layout and names do not matter: two sources with the same tokens, up to their positions and an
injective renaming, have reports that correspond, under either strategy. -/
theorem layout_and_names_irrelevant (readable : source.Readable) (readable' : source'.Readable)
    (renames : Renaming ρ source source') (strategy : Strategy) :
    Corresponds source source' (check strategy source) (check strategy source') := by
  have hinitial : renames.likeness.Twin (State.initial classifier source)
      (State.initial classifier source' : State Kind Ty (Symbol Kind Ty)) :=
    .initial readable readable' renames.forall₂_like
  have hprogram : renames.likeness.Beside Eq program.toEnd program.toEnd := .toEnd beside_program
  obtain ⟨-, hfinal⟩ := hprogram strategy (.inl rfl) _ _ hinitial
  refine ⟨?_, hfinal.notes rfl, hfinal.recovering_eq, (hfinal.scopes rfl).level_eq⟩
  exact Diagnostic.sort_matches (tiles.positions_increase source)
    (tiles.positions_increase source') (hfinal.sink.exactly rfl)

/-- A program that assigns to a constant, on one line. -/
def oneLine : Source := [.line "PROGRAM p WITH x = 1 IN x = y END"]

/-- The same program with other names, on three lines. -/
def threeLines : Source := [.line "PROGRAM q", .line "WITH z = 1 IN // z", .line "  z = w END"]

/-- The names of the one for the names of the other. -/
def rename : String → String
  | "p" => "q"
  | "x" => "z"
  | "y" => "w"
  | text => text

/-- The names of the two sources correspond by renaming. -/
theorem rename_renames : Renaming rename oneLine threeLines := by
  have htokens : oneLine.tokens classifier =
      [⟨.kwProgram, "PROGRAM", ⟨1, 1⟩⟩, ⟨.ident, "p", ⟨1, 9⟩⟩, ⟨.kwWith, "WITH", ⟨1, 11⟩⟩,
        ⟨.ident, "x", ⟨1, 16⟩⟩, ⟨.assign, "=", ⟨1, 18⟩⟩, ⟨.intLiteral, "1", ⟨1, 20⟩⟩,
        ⟨.kwIn, "IN", ⟨1, 22⟩⟩, ⟨.ident, "x", ⟨1, 25⟩⟩, ⟨.assign, "=", ⟨1, 27⟩⟩,
        ⟨.ident, "y", ⟨1, 29⟩⟩, ⟨.kwEnd, "END", ⟨1, 31⟩⟩, ⟨.endOfFile, "<EOF>", ⟨1, 34⟩⟩] := by
    decide
  have htokens' : threeLines.tokens classifier =
      [⟨.kwProgram, "PROGRAM", ⟨1, 1⟩⟩, ⟨.ident, "q", ⟨1, 9⟩⟩, ⟨.kwWith, "WITH", ⟨2, 1⟩⟩,
        ⟨.ident, "z", ⟨2, 6⟩⟩, ⟨.assign, "=", ⟨2, 8⟩⟩, ⟨.intLiteral, "1", ⟨2, 10⟩⟩,
        ⟨.kwIn, "IN", ⟨2, 12⟩⟩, ⟨.ident, "z", ⟨3, 3⟩⟩, ⟨.assign, "=", ⟨3, 5⟩⟩,
        ⟨.ident, "w", ⟨3, 7⟩⟩, ⟨.kwEnd, "END", ⟨3, 9⟩⟩, ⟨.endOfFile, "<EOF>", ⟨3, 12⟩⟩] := by
    decide
  refine ⟨?_, ?_⟩
  · rw [htokens, htokens']
    simp [rename]
  · rw [htokens]
    decide

/-- One line and three lines of the same tokens give corresponding reports. -/
theorem reports_of_oneLine_threeLines :
    Corresponds oneLine threeLines (check .recovering oneLine) (check .recovering threeLines) ∧
      Corresponds oneLine threeLines (check .failFast oneLine) (check .failFast threeLines) := by
  have hreadable : oneLine.Readable := by
    intro cause hmem
    simp [oneLine] at hmem
  have hreadable' : threeLines.Readable := by
    intro cause hmem
    simp [threeLines] at hmem
  exact ⟨layout_and_names_irrelevant hreadable hreadable' rename_renames .recovering,
    layout_and_names_irrelevant hreadable hreadable' rename_renames .failFast⟩

end Simple

end SinglePass
