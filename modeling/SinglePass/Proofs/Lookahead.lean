import SinglePass.Proofs.Engine.Conservation
import SinglePass.Proofs.Engine.Strategies
import SinglePass.Proofs.Engine.Timely

/-!
# The lookahead of a run

Between the scanner and a grammar there is one token.  Three layers have to agree for it: the cursor
with the failure it has met, the scanner that stops at the end of its source, and the run that looks
at a token whose faults have been recorded.

`lookahead_conserves` says that they do, at every moment of a run: what has been consumed, what is
looked at and what is ahead are the tokens of the source, and what the scanner has recorded are the
faults of the tokens up to the one that is looked at.  So a report of Simple or of word lists shows
a fault of the scanner in front of any other fault at its position.
-/

namespace SinglePass

/-- Whatever drives the engine, nothing is lost or recorded twice between the scanner and the
grammar, and reports show the faults of the scanner first. -/
theorem lookahead_conserves {κ τ ω ω₁ ω₂ : Type} [TokenKind κ] {start : Recognizer κ τ ω Unit}
    {simple : Recognizer Simple.Kind Simple.Ty ω₁ Unit}
    {words : Recognizer WordList.Kind WordList.Ty ω₂ Unit} (hstart : Driven start)
    (hsimple : Driven simple) (hwords : Driven words) (classifier : Classifier κ)
    (strategy : Strategy) (source : Source) :
    Conserves (State.Stands classifier source) strategy
        (State.initial classifier source : State κ τ ω).engine
        (run classifier start strategy source).2.engine ∧
      Conserves (State.StandsTiled Simple.classifier source) strategy
        (State.initial Simple.classifier source : State Simple.Kind Simple.Ty ω₁).engine
        (run Simple.classifier simple strategy source).2.engine ∧
      Conserves (State.StandsTiled WordList.classifier source) strategy
        (State.initial WordList.classifier source : State WordList.Kind WordList.Ty ω₂).engine
        (run WordList.classifier words strategy source).2.engine ∧
      (Simple.check strategy source).ScanningFirst ∧
      (WordList.check strategy source).ScanningFirst :=
  ⟨hstart.conserves classifier strategy source,
    hsimple.conserves_tiled Simple.tiles strategy source,
    hwords.conserves_tiled WordList.tiles strategy source,
    Simple.minds_program.scanningFirst Simple.tiles strategy source,
    WordList.minds_wordList.scanningFirst WordList.tiles strategy source⟩

/-- A script of Simple and the grammar of word lists, on a source that fails behind its first
line. -/
theorem lookahead_conserves_failing :
    Driven WordList.wordList ∧ Driven (Simple.script true [.advance, .mustBe .ident, .program]) ∧
      Conserves (State.Stands WordList.stallingClassifier [.line "a ! b", .failure "lost"])
        .recovering
        (State.initial WordList.stallingClassifier [.line "a ! b", .failure "lost"] :
          State WordList.Kind WordList.Ty String).engine
        (run WordList.stallingClassifier WordList.wordList .recovering
          [.line "a ! b", .failure "lost"]).2.engine ∧
      (Simple.check .recovering [.line "a ! b", .failure "lost"]).ScanningFirst := by
  have hscript : Driven (Simple.script true [.advance, .mustBe .ident, .program]) :=
    Simple.script_driven (by simp [Simple.Step.Semantic])
  have hwords : Driven WordList.wordList := .composed WordList.composed_wordList
  obtain ⟨hstalling, -, -, hsimple, -⟩ := lookahead_conserves hwords hscript hwords
    WordList.stallingClassifier .recovering [.line "a ! b", .failure "lost"]
  exact ⟨hwords, hscript, hstalling, hsimple⟩

end SinglePass
