import SinglePass.Proofs.Engine.Conservation
import SinglePass.Proofs.WordLists.Recognition

/-!
# Which word lists are accepted

A source that can be read is accepted, under either strategy, exactly if its tokens make up a word
list in which no list has a word twice (`accepted_iff_distinct`).  Nothing wrong gets through: a run
that stops at its first fault and meets none has read such a list, with the words of each list in a
scope of their own.  Nothing right is rejected: on the tokens of such a list the run ends with a
value, and a source of valid tokens brings no other faults with it.
-/

namespace SinglePass.WordList

/-- Every source gives a run that is ready to go over its tokens. -/
theorem ready_initial (source : Source) :
    (State.initial classifier source : State Kind Ty String).Ready :=
  ⟨State.initial_recovering _ _, State.initial_scansOnly _ _, State.placed_initial _ _⟩

/-- What is accepted has a tree with distinct words; they are noted down, and no scope is left
open. -/
theorem accepted_of_errors_eq_nil {strategy : Strategy} {source : Source}
    (h : (check strategy source).errors = []) :
    (∃ items, Sentence (source.tokens classifier) items ∧ (Item.list items).Distinct) ∧
      (check strategy source).notes = wordTexts (source.tokens classifier) ∧
      (check strategy source).scopes = .empty := by
  have hsink := (composed_wordList.errors_eq_nil_iff classifier strategy source).1 h
  have hfailFast := composed_wordList.run_failFast_of_sink_eq_nil classifier source hsink
  have hvalue := composed_wordList.recovering_run_value (fun _ => alike_wordList) classifier source
  have hrun : run classifier wordList .failFast source =
      (.value (), (run classifier wordList .recovering source).2) := by
    rw [hfailFast, ← hvalue]
  obtain ⟨items, hsentence, hdistinct, hnotes, hscopes⟩ :=
    yields_toEnd (ready_initial source) _ _ hrun
  have hsame : (run classifier wordList strategy source).2 =
      (run classifier wordList .recovering source).2 := by
    cases strategy with
    | failFast => rw [hfailFast]
    | recovering => rfl
  rw [State.initial_input] at hsentence hnotes
  refine ⟨⟨items, hsentence, hdistinct⟩, ?_, ?_⟩
  · show (run classifier wordList strategy source).2.notes = _
    rw [hsame, hnotes, State.initial_notes, List.nil_append]
  · show (run classifier wordList strategy source).2.scopes = _
    rw [hsame, hscopes]
    exact State.initial_scopes classifier source

/-- A list with distinct words is accepted. -/
theorem errors_eq_nil_of_sentence {source : Source} (hreadable : source.Readable)
    {items : List Item} (h : Sentence (source.tokens classifier) items)
    (hdistinct : (Item.list items).Distinct) (strategy : Strategy) :
    (check strategy source).errors = [] := by
  have hvalid : ∀ t ∈ source.tokens classifier, TokenKind.isInvalid t.kind = false :=
    fun t ht => decide_eq_false (h.valid t ht)
  rw [← State.initial_input (τ := Ty) (ω := String)] at h
  have hfuel := run_ne_outOfFuel (fun _ => alike_wordList) classifier .failFast source
  obtain ⟨_, t, hrun, -⟩ := obtains_toEnd (ready_initial source) h hdistinct hfuel
  apply (composed_wordList.errors_eq_nil_iff classifier strategy source).2
  exact composed_wordList.sink_eq_nil_of_value hreadable hvalid (congrArg Prod.fst hrun)

/-- A source that can be read is accepted, under either strategy, exactly if its tokens are those of
a word list whose words are distinct in each of its lists; and its tree, if it has one, is the only
one.  The notes are then its words in source order, and no scope is left open. -/
theorem accepted_iff_distinct (strategy : Strategy) (source : Source)
    (hreadable : source.Readable) :
    ((check strategy source).errors = [] ↔
      ∃ items, Sentence (source.tokens classifier) items ∧ (Item.list items).Distinct) ∧
    (∀ items, Sentence (source.tokens classifier) items →
      ((check strategy source).errors = [] ↔ (Item.list items).Distinct)) ∧
    ((check strategy source).errors = [] →
      (check strategy source).notes = wordTexts (source.tokens classifier) ∧
      (check strategy source).scopes = .empty) := by
  refine ⟨⟨fun h => (accepted_of_errors_eq_nil h).1, ?_⟩, ?_, fun h =>
    (accepted_of_errors_eq_nil h).2⟩
  · rintro ⟨items, hsentence, hdistinct⟩
    exact errors_eq_nil_of_sentence hreadable hsentence hdistinct strategy
  · intro items hsentence
    refine ⟨fun h => ?_, fun h => errors_eq_nil_of_sentence hreadable hsentence h strategy⟩
    obtain ⟨items', hsentence', hdistinct⟩ := (accepted_of_errors_eq_nil h).1
    rwa [hsentence.unique hsentence']

/-- A source with a list in a list, where both have the word `a`. -/
def nesting : Source := [.line "a; (b; a;);", .line "c;"]

/-- The tree of its items. -/
def nestingTree : List Item :=
  [.word ⟨.word, "a", ⟨1, 1⟩⟩,
    .list [.word ⟨.word, "b", ⟨1, 5⟩⟩, .word ⟨.word, "a", ⟨1, 8⟩⟩],
    .word ⟨.word, "c", ⟨2, 1⟩⟩]

/-- The tokens of the list are those of its items, and the one that ends it. -/
theorem nesting_tokens : nesting.tokens classifier =
    ([⟨.word, "a", ⟨1, 1⟩⟩] ++ ⟨.semicolon, ";", ⟨1, 2⟩⟩ ::
      ((⟨.leftParen, "(", ⟨1, 4⟩⟩ ::
        (([⟨.word, "b", ⟨1, 5⟩⟩] ++ ⟨.semicolon, ";", ⟨1, 6⟩⟩ ::
          ([⟨.word, "a", ⟨1, 8⟩⟩] ++ ⟨.semicolon, ";", ⟨1, 9⟩⟩ :: [])) ++
        [⟨.rightParen, ")", ⟨1, 10⟩⟩])) ++ ⟨.semicolon, ";", ⟨1, 11⟩⟩ ::
      ([⟨.word, "c", ⟨2, 1⟩⟩] ++ ⟨.semicolon, ";", ⟨2, 2⟩⟩ :: []))) ++
    [⟨.endOfFile, "", ⟨2, 3⟩⟩] := by
  decide

/-- The list is accepted, and its words are noted in the order in which they stand. -/
theorem accepted_nesting :
    nesting.Readable ∧ (check .failFast nesting).errors = [] ∧
      (check .failFast nesting).notes = ["a", "b", "a", "c"] := by
  have hreadable : nesting.Readable := by
    intro cause hmem
    simp [nesting] at hmem
  have hsentence : Sentence (nesting.tokens classifier) nestingTree := by
    rw [nesting_tokens]
    exact .intro (by decide) (.cons (.word rfl) rfl (.cons (.list rfl (by decide)
      (.cons (.word rfl) rfl (.cons (.word rfl) rfl .nil)) rfl) rfl
      (.cons (.word rfl) rfl .nil))) rfl
  have hinner : (Item.list [.word ⟨.word, "b", ⟨1, 5⟩⟩, .word ⟨.word, "a", ⟨1, 8⟩⟩]).Distinct :=
    fresh_nil_iff.1 (fresh_cons.2 ⟨fresh_word.2 (by decide), fresh_word.2 (by decide)⟩)
  have hdistinct : (Item.list nestingTree).Distinct :=
    fresh_nil_iff.1 (fresh_cons.2 ⟨fresh_word.2 (by decide), fresh_cons.2
      ⟨fresh_list.2 (fresh_nil_iff.2 hinner), fresh_word.2 (by decide)⟩⟩)
  obtain ⟨haccepted, -, hwords⟩ := accepted_iff_distinct .failFast nesting hreadable
  have herrors := haccepted.2 ⟨nestingTree, hsentence, hdistinct⟩
  refine ⟨hreadable, herrors, (hwords herrors).1.trans ?_⟩
  rw [nesting_tokens]
  rfl

end SinglePass.WordList
