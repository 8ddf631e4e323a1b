import SinglePass.Proofs.CorrectPrefix
import SinglePass.Proofs.FailFast
import SinglePass.Proofs.FaultFree.Programs

/-!
# What is accepted

A source that can be read is accepted, under either strategy, exactly if its tokens make up a
program that keeps the static rules (`check_accepts_iff`).  Nothing wrong gets through: a run
without faults has met no unexpected token, so it has read a program, and the walk of its syntax
tree finds no fault.  Nothing right is rejected: on the tokens of a program the run records the
faults of the walk and no others.
-/

namespace SinglePass.Simple

/-- Both strategies accept what the recovering run has nothing to record about. -/
theorem errors_eq_nil_iff (strategy : Strategy) (source : Source) :
    (check strategy source).errors = [] ↔
      (run classifier program .recovering source).2.sink = [] :=
  composed_program.errors_eq_nil_iff classifier strategy source

/-- Nothing that is not a program is accepted. -/
theorem sentence_of_errors_eq_nil {strategy : Strategy} {source : Source}
    (h : (check strategy source).errors = []) : ∃ p, Sentence (source.tokens classifier) p := by
  apply sentence_of_no_unexpected
  rw [(errors_eq_nil_iff strategy source).1 h]
  rfl

/-- A program is accepted exactly if its derivation keeps the static rules. -/
theorem accepts_sentence_iff {source : Source} (hreadable : source.Readable) {p : Program}
    (h : Sentence (source.tokens classifier) p) (strategy : Strategy) :
    (check strategy source).errors = [] ↔ p.WellFormed := by
  obtain ⟨final, hrun⟩ := run_of_sentence hreadable h
  rw [errors_eq_nil_iff, hrun]
  exact h.faults_eq_nil

/-- A source that can be read is accepted, under either strategy, exactly if its tokens are those of
a program that keeps the static rules; and whichever derivation the tokens have, it keeps the rules
exactly if the source is accepted. -/
theorem check_accepts_iff (strategy : Strategy) (source : Source) (hreadable : source.Readable) :
    ((check strategy source).errors = [] ↔
        ∃ p, Sentence (source.tokens classifier) p ∧ p.WellFormed) ∧
      ∀ p, Sentence (source.tokens classifier) p →
        ((check strategy source).errors = [] ↔ p.WellFormed) := by
  refine ⟨⟨?_, ?_⟩, ?_⟩
  · intro h
    obtain ⟨p, hp⟩ := sentence_of_errors_eq_nil h
    exact ⟨p, hp, (accepts_sentence_iff hreadable hp strategy).1 h⟩
  · rintro ⟨p, hp, hwell⟩
    exact (accepts_sentence_iff hreadable hp strategy).2 hwell
  · intro p hp
    exact accepts_sentence_iff hreadable hp strategy

/-- A source that assigns to an element of an array. -/
def indexing : Source :=
  [.line "PROGRAM p WITH a AS ARRAY [1:3] OF REAL", .line "IN a[2] = 0.5 END"]

/-- Its syntax tree. -/
def indexingTree : Program :=
  ⟨⟨.ident, "p", ⟨1, 9⟩⟩,
    [.typed ⟨.ident, "a", ⟨1, 16⟩⟩
      (.array [.range ⟨none, ⟨.intLiteral, "1", ⟨1, 28⟩⟩⟩ ⟨none, ⟨.intLiteral, "3", ⟨1, 30⟩⟩⟩]
        .real)],
    [.assign ⟨.ident, "a", ⟨2, 4⟩⟩ [.integer ⟨.intLiteral, "2", ⟨2, 6⟩⟩]
      (.real ⟨.realLiteral, "0.5", ⟨2, 11⟩⟩)]⟩

/-- The program is a sentence of the grammar. -/
theorem indexing_sentence : Sentence (indexing.tokens classifier) indexingTree := by
  have htokens : indexing.tokens classifier =
      ⟨.kwProgram, "PROGRAM", ⟨1, 1⟩⟩ :: ⟨.ident, "p", ⟨1, 9⟩⟩ ::
        ((⟨.kwWith, "WITH", ⟨1, 11⟩⟩ ::
          (⟨.ident, "a", ⟨1, 16⟩⟩ :: ⟨.kwAs, "AS", ⟨1, 18⟩⟩ ::
            ⟨.kwArray, "ARRAY", ⟨1, 21⟩⟩ :: ⟨.leftBracket, "[", ⟨1, 27⟩⟩ ::
              (([⟨.intLiteral, "1", ⟨1, 28⟩⟩] ++
                ⟨.colon, ":", ⟨1, 29⟩⟩ :: [⟨.intLiteral, "3", ⟨1, 30⟩⟩]) ++ [] ++
                [⟨.rightBracket, "]", ⟨1, 31⟩⟩, ⟨.kwOf, "OF", ⟨1, 33⟩⟩,
                  ⟨.kwReal, "REAL", ⟨1, 36⟩⟩])) ++ []) ++
          ⟨.kwIn, "IN", ⟨2, 1⟩⟩ ::
            (((⟨.ident, "a", ⟨2, 4⟩⟩ :: ⟨.leftBracket, "[", ⟨2, 5⟩⟩ ::
              ([⟨.intLiteral, "2", ⟨2, 6⟩⟩] ++ [] ++ [⟨.rightBracket, "]", ⟨2, 7⟩⟩])) ++
                ⟨.assign, "=", ⟨2, 9⟩⟩ :: [⟨.realLiteral, "0.5", ⟨2, 11⟩⟩]) ++ [] ++
              [⟨.kwEnd, "END", ⟨2, 15⟩⟩])) ++ [⟨.endOfFile, "<EOF>", ⟨2, 18⟩⟩] := by
    decide
  have hdim : Dim.Derives ([⟨.intLiteral, "1", ⟨1, 28⟩⟩] ++
      ⟨.colon, ":", ⟨1, 29⟩⟩ :: [⟨.intLiteral, "3", ⟨1, 30⟩⟩])
      (.range ⟨none, ⟨.intLiteral, "1", ⟨1, 28⟩⟩⟩ ⟨none, ⟨.intLiteral, "3", ⟨1, 30⟩⟩⟩) :=
    .range (.plain rfl) rfl (.plain rfl)
  have hindex : Expr.Derives .full [⟨.intLiteral, "2", ⟨2, 6⟩⟩]
      (.integer ⟨.intLiteral, "2", ⟨2, 6⟩⟩) := .ofSimple (.ofTerm (.ofFactor (.integer rfl)))
  have hvalue : Expr.Derives .full [⟨.realLiteral, "0.5", ⟨2, 11⟩⟩]
      (.real ⟨.realLiteral, "0.5", ⟨2, 11⟩⟩) := .ofSimple (.ofTerm (.ofFactor (.real rfl)))
  rw [htokens]
  refine .intro (.intro rfl rfl (.some rfl (.intro ?_ .nil)) rfl (.cons ?_ .nil) rfl) rfl
  · exact .typed rfl rfl (.array rfl rfl (.intro hdim .nil) rfl rfl rfl)
  · exact .assign (.element rfl rfl (.intro hindex .nil) rfl) rfl hvalue

/-- The program is well-formed. -/
theorem indexingTree_wellFormed : indexingTree.WellFormed := by
  have hlookup : Scopes.lookup [Decl.scope indexingTree.decls] "a" = some (.array [(1, 3)] .real) :=
    rfl
  refine ⟨⟨?_, by decide⟩, ?_⟩
  · intro d hd
    obtain rfl := List.mem_singleton.1 hd
    intro dim hdim
    obtain rfl := List.mem_singleton.1 hdim
    exact ⟨by decide, by decide, by decide⟩
  · intro s hs
    obtain rfl := List.mem_singleton.1 hs
    refine .assign ?_ (.element hlookup (List.cons_ne_nil _ _) ?_ (.cons ?_ .nil)) .real
    · intro type heq
      rw [hlookup] at heq
      simp at heq
    · intro index hindex
      obtain rfl := List.mem_singleton.1 hindex
      exact .integer (by decide)
    · intro value hvalue
      obtain rfl := Option.some.inj hvalue
      decide

/-- The program is accepted under both strategies. -/
theorem check_accepts_indexing :
    (check .recovering indexing).errors = [] ∧ (check .failFast indexing).errors = [] := by
  have hreadable : indexing.Readable := by
    intro cause hmem
    simp [indexing] at hmem
  have hwell : ∃ p, Sentence (indexing.tokens classifier) p ∧ p.WellFormed :=
    ⟨_, indexing_sentence, indexingTree_wellFormed⟩
  exact ⟨(check_accepts_iff .recovering indexing hreadable).1.2 hwell,
    (check_accepts_iff .failFast indexing hreadable).1.2 hwell⟩

end SinglePass.Simple
