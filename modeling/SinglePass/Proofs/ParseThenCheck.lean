import SinglePass.Proofs.Recognition.Statements
import SinglePass.Proofs.TokenStream
import SinglePass.Simple.Check

/-!
# Checking in one pass is parsing and then checking

The recognizers of Simple consume tokens, keep the scopes and apply the type rules in one pass.  On
a source whose tokens make up a program the recovering run gives what a parse followed by a walk of
the syntax tree gives: the same faults in the order of their detection, and the same accepted
symbols in the order of their declaration (`recovering_run_eq_walk`).

The theorem speaks of every syntax tree that the tokens have.  It does not say that there is only
one; that all of them have the same faults is a consequence.
-/

namespace SinglePass.Simple

open Recognizer

/-- A run on a source that can be read, and whose tokens are valid, begins without any fault and
faces just these tokens. -/
theorem initial_eq_facing {source : Source} (hreadable : source.Readable)
    (hvalid : ∀ t ∈ source.tokens classifier, t.kind.isInvalid = false) :
    State.initial classifier source = facing (source.tokens classifier) [] [] [] := by
  obtain ⟨first, more, hstream, hinitial⟩ :=
    State.initial_eq (τ := Ty) (ω := Symbol Kind Ty) classifier source
  have htokens : source.tokens classifier = first.token :: more.map Scanned.token := by
    rw [← source.map_token_stream (τ := Ty) classifier, hstream, List.map_cons]
  have hfaults : ∀ scanned ∈ first :: more, scanned.faults = [] := by
    intro scanned hmem
    have hkind : TokenKind.isInvalid scanned.token.kind = false := by
      apply hvalid
      rw [htokens, ← List.map_cons]
      exact List.mem_map_of_mem hmem
    rw [← hstream] at hmem
    rw [Source.faults_eq_lexicalFaults hreadable hmem]
    unfold Cursor.lexicalFaults
    exact if_neg (by simpa using hkind)
  have hmore : more = (more.map Scanned.token).map fun t => ⟨t, []⟩ := by
    have hself : ∀ scanned ∈ more, (⟨scanned.token, []⟩ : Scanned Kind Ty) = scanned := by
      intro scanned hmem
      rw [← hfaults scanned (List.mem_cons_of_mem _ hmem)]
    rw [List.map_map]
    exact ((List.map_congr_left hself).trans (List.map_id more)).symm
  rw [hinitial, htokens, (Cursor.Sound.start hreadable).faults_eq,
    hfaults first List.mem_cons_self]
  unfold facing
  rw [List.tail_cons, ← hmore]
  rfl

/-- The recovering run on the tokens of a program. -/
theorem run_of_sentence {source : Source} (hreadable : source.Readable) {p : Program}
    (h : Sentence (source.tokens classifier) p) :
    ∃ final, run classifier program .recovering source =
      (.value (), facing [final] [] p.faults p.declared) := by
  obtain ⟨final, hfinal⟩ := h.recognized
  refine ⟨final, ?_⟩
  unfold run
  rw [initial_eq_facing hreadable fun _ => h.isInvalid_eq_false, hfinal]

/-- On a source that can be read and whose tokens make up a program, the recovering run finds the
faults that the walk of the syntax tree finds, in the same order, and declares the symbols that the
walk accepts. -/
theorem recovering_run_eq_walk (source : Source) (hreadable : source.Readable) (p : Program)
    (h : Sentence (source.tokens classifier) p) :
    (run classifier program .recovering source).1 = .value () ∧
      (run classifier program .recovering source).2.sink = p.faults ∧
      check .recovering source = ⟨Diagnostic.sort p.faults, false, .empty, p.declared⟩ := by
  obtain ⟨final, hrun⟩ := run_of_sentence hreadable h
  unfold check parse
  rw [hrun]
  exact ⟨rfl, rfl, rfl⟩

/-- A source with three faults of meaning. -/
def redeclaring : Source :=
  [.line "PROGRAM p WITH n = 3, n AS REAL", .line "IN n = b END"]

/-- Its syntax tree. -/
def redeclaringTree : Program :=
  ⟨⟨.ident, "p", ⟨1, 9⟩⟩,
    [.const ⟨.ident, "n", ⟨1, 16⟩⟩ (.integer ⟨none, ⟨.intLiteral, "3", ⟨1, 20⟩⟩⟩),
      .typed ⟨.ident, "n", ⟨1, 23⟩⟩ (.base .real)],
    [.assign ⟨.ident, "n", ⟨2, 4⟩⟩ [] (.designator ⟨.ident, "b", ⟨2, 8⟩⟩ [])]⟩

/-- The program is a sentence of the grammar. -/
theorem redeclaring_sentence : Sentence (redeclaring.tokens classifier) redeclaringTree := by
  have htokens : redeclaring.tokens classifier =
      ⟨.kwProgram, "PROGRAM", ⟨1, 1⟩⟩ :: ⟨.ident, "p", ⟨1, 9⟩⟩ ::
        ((⟨.kwWith, "WITH", ⟨1, 11⟩⟩ ::
          ([⟨.ident, "n", ⟨1, 16⟩⟩, ⟨.assign, "=", ⟨1, 18⟩⟩, ⟨.intLiteral, "3", ⟨1, 20⟩⟩] ++
            (⟨.comma, ",", ⟨1, 21⟩⟩ ::
              ([⟨.ident, "n", ⟨1, 23⟩⟩, ⟨.kwAs, "AS", ⟨1, 25⟩⟩, ⟨.kwReal, "REAL", ⟨1, 28⟩⟩] ++
                [])))) ++
          ⟨.kwIn, "IN", ⟨2, 1⟩⟩ ::
          (([⟨.ident, "n", ⟨2, 4⟩⟩] ++ ⟨.assign, "=", ⟨2, 6⟩⟩ :: [⟨.ident, "b", ⟨2, 8⟩⟩]) ++ [] ++
            [⟨.kwEnd, "END", ⟨2, 10⟩⟩])) ++ [⟨.endOfFile, "<EOF>", ⟨2, 13⟩⟩] := by
    decide
  rw [htokens]
  exact .intro (.intro rfl rfl (.some rfl (.intro (.const rfl rfl (.integer (.plain rfl)))
    (.cons rfl (.typed rfl rfl (.base rfl)) .nil))) rfl
    (.cons (.assign (.name rfl) rfl (.ofSimple (.ofTerm (.ofFactor (.name rfl))))) .nil) rfl) rfl


/-- The run records a duplicate, a constant that is assigned to, and a name that is not declared. -/
theorem recovering_run_of_redeclaring :
    (run classifier program .recovering redeclaring).2.sink =
      [.alreadyDeclared ⟨.ident, "n", ⟨1, 23⟩⟩ (.const ⟨.ident, "n", ⟨1, 16⟩⟩ .integer),
        .custom ⟨.ident, "n", ⟨2, 4⟩⟩ "Constant 'n' cannot be assigned",
        .notDeclared ⟨.ident, "b", ⟨2, 8⟩⟩] := by
  have hreadable : redeclaring.Readable := by
    intro cause hmem
    simp [redeclaring] at hmem
  rw [(recovering_run_eq_walk redeclaring hreadable redeclaringTree redeclaring_sentence).2.1]
  rfl

end SinglePass.Simple
