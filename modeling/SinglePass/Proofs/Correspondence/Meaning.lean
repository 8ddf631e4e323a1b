import SinglePass.Proofs.Correspondence.Reports
import SinglePass.Proofs.Engine.Conservation

/-!
# Meaning does not steer recognition

What the tokens of a source mean has no influence on what is recognized.  Two sources of Simple
whose tokens have the same kinds, one by one, may differ in every name, literal and declaration.
Their recovering runs nevertheless consume the same number of tokens, record the same lexical and
syntactic faults at tokens with the same numbers, and end alike (`meaning_does_not_steer`); only
the faults of meaning are their own.

Both runs are compared by the kinds of their tokens alone, which is a comparison that is not exact
(`sameKinds`): the rules of meaning are then free to do on each side what they like.
-/

namespace SinglePass

namespace Simple

variable {source source' : Source}

/-- Two endings of runs that have recognized the same, whatever the tokens of their sources mean. -/
structure RecognizedAlike (source source' : Source)
    (e e' : Outcome Unit × State Kind Ty (Symbol Kind Ty)) : Prop where
  outcome_eq : e.1 = e'.1
  /-- Both look at the token with one number, and have consumed those before it. -/
  consumed : ∃ n, e.2.Reads classifier source n ∧ e'.2.Reads classifier source' n
  recovering_eq : e.2.recovering = e'.2.recovering
  /-- The lexical and syntactic faults, as they were recorded, are of the same sorts, at tokens with
  the same numbers, where the same was expected. -/
  recorded : List.Forall₂
    (Diagnostic.Matches (SamePlace (source.tokens classifier) (source'.tokens classifier)) .ident)
    (e.2.sink.filter (!·.isSemantic)) (e'.2.sink.filter (!·.isSemantic))
  /-- So they are as they are presented. -/
  presented : List.Forall₂
    (Diagnostic.Matches (SamePlace (source.tokens classifier) (source'.tokens classifier)) .ident)
    ((Report.ofState e.2).errors.filter (!·.isSemantic))
    ((Report.ofState e'.2).errors.filter (!·.isSemantic))

/-- The comparison of two sources by the kinds of their tokens. -/
def sameKinds
    (h : (source.tokens classifier).map Token.kind = (source'.tokens classifier).map Token.kind) :
    Likeness Kind .ident where
  Like := SamePlace (source.tokens classifier) (source'.tokens classifier)
  exact := false
  failures := true
  kind_eq := by
    rintro t t' ⟨i, hi, hi'⟩
    have hkind := congrArg (·[i]?) h
    simp only [List.getElem?_map, hi, hi', Option.map_some] at hkind
    exact Option.some.inj hkind
  text_eq hexact := absurd hexact Bool.false_ne_true
  text_iff hexact := absurd hexact Bool.false_ne_true

/-- States that stand for each other are at one place of their sources. -/
theorem reads_alike {L : Likeness Kind .ident} {s s' : State Kind Ty (Symbol Kind Ty)} {n n' : Nat}
    (hlength : (source.tokens classifier).length = (source'.tokens classifier).length)
    (h : L.Twin s s') (hreads : s.Reads classifier source n)
    (hreads' : s'.Reads classifier source' n') : n' = n := by
  have hstream : (source.stream (τ := Ty) classifier).length =
      (source'.stream (τ := Ty) classifier).length := by
    rw [← Source.map_token_stream (τ := Ty), ← Source.map_token_stream (τ := Ty), List.length_map,
      List.length_map] at hlength
    exact hlength
  have hahead := h.ahead.length_eq
  rw [hreads.ahead_eq, hreads'.ahead_eq, List.length_drop, List.length_drop] at hahead
  have hlt := hreads.lt_length
  have hlt' := hreads'.lt_length
  omega

/-- **Meaning does not steer recognition.**  If the tokens of two sources that can be read have the
same kinds, then the recovering runs over them record the same lexical and syntactic faults,
consume the same number of tokens, and end alike. -/
theorem meaning_does_not_steer (readable : source.Readable) (readable' : source'.Readable)
    (kinds : (source.tokens classifier).map Token.kind =
      (source'.tokens classifier).map Token.kind) :
    RecognizedAlike source source' (run classifier program .recovering source)
      (run classifier program .recovering source') := by
  have hlength : (source.tokens classifier).length = (source'.tokens classifier).length := by
    rw [← List.length_map (f := Token.kind), kinds, List.length_map]
  have hinitial : (sameKinds kinds).Twin (State.initial classifier source)
      (State.initial classifier source' : State Kind Ty (Symbol Kind Ty)) :=
    .initial readable readable' (forall₂_samePlace hlength)
  have hprogram : (sameKinds kinds).Beside Eq program.toEnd program.toEnd := .toEnd beside_program
  obtain ⟨houtcome, hfinal⟩ := hprogram .recovering (.inr rfl) _ _ hinitial
  have hdriven : Driven program := .composed composed_program
  obtain ⟨n, hreads⟩ := hdriven.reads_run classifier .recovering source
  obtain ⟨n', hreads'⟩ := hdriven.reads_run classifier .recovering source'
  obtain rfl : n' = n := reads_alike hlength hfinal hreads hreads'
  refine ⟨houtcome.eq, ⟨n', hreads, hreads'⟩, hfinal.recovering_eq, hfinal.sink, ?_⟩
  rw [Report.ofState, Report.ofState, Diagnostic.filter_sort, Diagnostic.filter_sort]
  exact Diagnostic.sort_matches (tiles.positions_increase source)
    (tiles.positions_increase source') hfinal.sink

/-- Assigns to a constant, from a name that is not declared, and has a character too many. -/
def constantAssigned : Source := [.line "PROGRAM p WITH x = 1 IN x = y ! END"]

/-- Has tokens of the same kinds, but assigns to a name that is not declared. -/
def constantRead : Source := [.line "PROGRAM x WITH x = 2 IN", .line " zz = x ? END"]

/-- The two have four faults and three, of which two are recognized alike. -/
theorem constantAssigned_constantRead_alike :
    (check .recovering constantAssigned).errors.length = 4 ∧
      (check .recovering constantRead).errors.length = 3 ∧
      RecognizedAlike constantAssigned constantRead
        (run classifier program .recovering constantAssigned)
        (run classifier program .recovering constantRead) := by
  have hreadable : constantAssigned.Readable := by
    intro cause hmem
    simp [constantAssigned] at hmem
  have hreadable' : constantRead.Readable := by
    intro cause hmem
    simp [constantRead] at hmem
  have hkinds : (constantAssigned.tokens classifier).map Token.kind =
      (constantRead.tokens classifier).map Token.kind := by
    decide +kernel
  exact ⟨by decide +kernel, by decide +kernel,
    meaning_does_not_steer hreadable hreadable' hkinds⟩

end Simple

end SinglePass
