import Mathlib.Data.List.Nodup
import SinglePass.WordList

/-!
# The syntax of word lists

The grammar of word lists as a relation between token lists and trees, apart from any recognizer.
A tree keeps the words and how the lists nest; parentheses and semicolons are left to the
derivation.

```text
list = item ";" { item ";" }
item = word | "(" list ")"
```

`Sentence` is the relation for whole token streams.  A token list has at most one tree, since an
item shows by its first token what it is and a list ends before `)` or the end of the source
(`Sentence.unique`).  `Item.Distinct` is the one rule of meaning: no list has a word twice, apart
from the lists in it.
-/

namespace SinglePass.WordList

/-! ## Trees -/

/-- An item of a list: a word, or a list of its own. -/
inductive Item where
  | word (name : Token Kind)
  | list (items : List Item)

/-- The name that an item declares in the list in which it stands. -/
def Item.declares? : Item → Option String
  | word name => some name.text
  | list _ => none

/-- The words of a list, without those of the lists in it. -/
def ownWords (items : List Item) : List String := items.filterMap Item.declares?

/-- The own words of items in two parts are those of both. -/
theorem ownWords_append (items more : List Item) :
    ownWords (items ++ more) = ownWords items ++ ownWords more := List.filterMap_append

/-- The words of each list, of this one and of those in it, are pairwise distinct. -/
inductive Item.Distinct : Item → Prop
  | word {name : Token Kind} : Distinct (.word name)
  | list {items : List Item} :
      (ownWords items).Nodup → (∀ item ∈ items, item.Distinct) → Distinct (.list items)

/-- Items that may stand in a list behind words of these names. -/
structure Fresh (names : List String) (items : List Item) : Prop where
  nodup : (ownWords items).Nodup
  disjoint : List.Disjoint names (ownWords items)
  distinct : ∀ item ∈ items, item.Distinct

/-- No items repeat no names. -/
theorem fresh_nil (names : List String) : Fresh names [] :=
  ⟨List.nodup_nil, List.disjoint_nil_right names, by simp⟩

/-- A word is new if no word before it has its name. -/
theorem fresh_word {names : List String} {name : Token Kind} :
    Fresh names [.word name] ↔ name.text ∉ names := by
  constructor
  · intro h hmem
    exact h.disjoint hmem (List.mem_singleton.2 rfl)
  · intro h
    refine ⟨List.nodup_singleton _, List.disjoint_singleton.2 h, ?_⟩
    intro item hitem
    rw [List.mem_singleton.1 hitem]
    exact .word

/-- The words before a list do not matter in it. -/
theorem fresh_list {names : List String} {items : List Item} :
    Fresh names [.list items] ↔ Fresh [] items := by
  constructor
  · intro h
    cases h.distinct (.list items) (List.mem_singleton.2 rfl) with
    | list nodup distinct => exact ⟨nodup, List.disjoint_nil_left _, distinct⟩
  · intro h
    refine ⟨List.nodup_nil, List.disjoint_nil_right names, ?_⟩
    intro item hitem
    rw [List.mem_singleton.1 hitem]
    exact .list h.nodup h.distinct

/-- Items without names around them are fresh if their words are distinct. -/
theorem fresh_nil_iff {items : List Item} : Fresh [] items ↔ (Item.list items).Distinct := by
  constructor
  · intro h
    exact .list h.nodup h.distinct
  · intro h
    cases h with
    | list nodup distinct => exact ⟨nodup, List.disjoint_nil_left _, distinct⟩

/-- Items may follow others if they may stand behind the words of these. -/
theorem fresh_append {names : List String} {items more : List Item} :
    Fresh names (items ++ more) ↔ Fresh names items ∧ Fresh (names ++ ownWords items) more := by
  constructor
  · rintro ⟨hnodup, hdisjoint, hdistinct⟩
    rw [ownWords_append, List.nodup_append'] at hnodup
    rw [ownWords_append, List.disjoint_append_right] at hdisjoint
    obtain ⟨hitems, hmore⟩ := List.forall_mem_append.1 hdistinct
    refine ⟨⟨hnodup.1, hdisjoint.1, hitems⟩, hnodup.2.1, ?_, hmore⟩
    exact List.disjoint_append_left.2 ⟨hdisjoint.2, hnodup.2.2⟩
  · rintro ⟨hfirst, hrest⟩
    obtain ⟨hnames, hown⟩ := List.disjoint_append_left.1 hrest.disjoint
    refine ⟨?_, ?_, List.forall_mem_append.2 ⟨hfirst.distinct, hrest.distinct⟩⟩
    · rw [ownWords_append, List.nodup_append']
      exact ⟨hfirst.nodup, hrest.nodup, hown⟩
    · rw [ownWords_append, List.disjoint_append_right]
      exact ⟨hfirst.disjoint, hnames⟩

/-- Items are fresh if the first one is, and the rest with its words among the names. -/
theorem fresh_cons {names : List String} {item : Item} {more : List Item} :
    Fresh names (item :: more) ↔
      Fresh names [item] ∧ Fresh (names ++ ownWords [item]) more := by
  rw [← List.singleton_append, fresh_append]

/-! ## Derivations -/

mutual

/-- The tokens make up the item. -/
inductive Item.Derives : List (Token Kind) → Item → Prop
  | word {name : Token Kind} : name.kind = .word → Item.Derives [name] (.word name)
  | list {opening closing : Token Kind} {ts : List (Token Kind)} {items : List Item} :
      opening.kind = .leftParen → items ≠ [] → Items ts items →
      closing.kind = .rightParen → Item.Derives (opening :: (ts ++ [closing])) (.list items)

/-- The tokens make up the items one after another, each with a semicolon behind it. -/
inductive Items : List (Token Kind) → List Item → Prop
  | nil : Items [] []
  | cons {semicolon : Token Kind} {ts us : List (Token Kind)} {item : Item} {more : List Item} :
      Item.Derives ts item → semicolon.kind = .semicolon → Items us more →
      Items (ts ++ semicolon :: us) (item :: more)

end

/-- Items may be put behind each other. -/
theorem Items.append : ∀ {ts us : List (Token Kind)} {items more : List Item},
    Items ts items → Items us more → Items (ts ++ us) (items ++ more)
  | _, _, _, _, .nil, h => h
  | _, _, _, _, .cons hitem hsemicolon hmore, h => by
    rw [List.append_assoc]
    exact .cons hitem hsemicolon (hmore.append h)

/-- The token stream of a whole word list. -/
inductive Sentence : List (Token Kind) → List Item → Prop
  | intro {ts : List (Token Kind)} {final : Token Kind} {items : List Item} :
      items ≠ [] → Items ts items → final.kind = .endOfFile → Sentence (ts ++ [final]) items

/-- The texts of the words, in source order. -/
def wordTexts (ts : List (Token Kind)) : List String :=
  (ts.filter (·.kind = .word)).map Token.text

/-- The words in tokens of two parts are those of both. -/
@[simp] theorem wordTexts_append (ts us : List (Token Kind)) :
    wordTexts (ts ++ us) = wordTexts ts ++ wordTexts us := by
  rw [wordTexts, List.filter_append, List.map_append]
  rfl

/-- A word is the text of its token. -/
theorem wordTexts_singleton {t : Token Kind} (h : t.kind = .word) : wordTexts [t] = [t.text] := by
  simp [wordTexts, h]

/-- What is no word has no text among the words. -/
theorem wordTexts_singleton_of_ne {t : Token Kind} (h : t.kind ≠ .word) : wordTexts [t] = [] := by
  simp [wordTexts, h]

/-! ## First and last tokens -/

/-- Tokens before which a list ends. -/
def EndsList (ts : List (Token Kind)) : Prop :=
  ∃ t rest, ts = t :: rest ∧ (t.kind = .rightParen ∨ t.kind = .endOfFile)

/-- An item begins with a word or with a parenthesis. -/
theorem Item.Derives.first {ts : List (Token Kind)} {item : Item} (h : item.Derives ts) :
    ∃ t rest, ts = t :: rest ∧ (t.kind = .word ∨ t.kind = .leftParen) := by
  cases h with
  | word h => exact ⟨_, _, rfl, .inl h⟩
  | list h => exact ⟨_, _, rfl, .inr h⟩

/-- No item begins where a list ends. -/
theorem Item.Derives.not_endsList {ts rest : List (Token Kind)} {item : Item}
    (h : item.Derives ts) : ¬ EndsList (ts ++ rest) := by
  rintro ⟨t, us, heq, hends⟩
  obtain ⟨first, more, rfl, hfirst⟩ := h.first
  obtain ⟨rfl, -⟩ := List.cons.inj heq
  obtain hkind | hkind := hfirst <;> simp [hkind] at hends

/-! ## One tree for each token list -/

mutual

/-- An item is told by its tokens. -/
theorem Item.Derives.unique : ∀ {ts us rest rest' : List (Token Kind)} {item item' : Item},
    item.Derives ts → item'.Derives us → ts ++ rest = us ++ rest' → item = item' ∧ rest = rest'
  | _, _, _, _, _, _, .word _, .word _, heq => by
    obtain ⟨rfl, hrest⟩ := List.cons.inj heq
    exact ⟨rfl, hrest⟩
  | _, _, _, _, _, _, .word hname, .list hopening _ _ _, heq => by
    obtain ⟨rfl, -⟩ := List.cons.inj heq
    rw [hname] at hopening
    nomatch hopening
  | _, _, _, _, _, _, .list hopening _ _ _, .word hname, heq => by
    obtain ⟨rfl, -⟩ := List.cons.inj heq
    rw [hname] at hopening
    nomatch hopening
  | _, _, _, _, _, _, .list _ _ hitems hclosing, .list _ _ hitems' hclosing', heq => by
    rw [List.cons_append, List.cons_append, List.append_assoc, List.append_assoc] at heq
    have hinner := (List.cons.inj heq).2
    obtain ⟨rfl, hrest⟩ := hitems.unique hitems' ⟨_, _, rfl, .inl hclosing⟩
      ⟨_, _, rfl, .inl hclosing'⟩ hinner
    exact ⟨rfl, (List.cons.inj hrest).2⟩

/-- Items are told by their tokens, up to the end of their list. -/
theorem Items.unique : ∀ {ts us rest rest' : List (Token Kind)} {items items' : List Item},
    Items ts items → Items us items' → EndsList rest → EndsList rest' →
    ts ++ rest = us ++ rest' → items = items' ∧ rest = rest'
  | _, _, _, _, _, _, .nil, .nil, _, _, heq => ⟨rfl, heq⟩
  | _, _, _, _, _, _, .nil, .cons hitem _ _, hends, _, heq => by
    rw [List.nil_append, List.append_assoc] at heq
    rw [heq] at hends
    exact absurd hends hitem.not_endsList
  | _, _, _, _, _, _, .cons hitem _ _, .nil, _, hends, heq => by
    rw [List.nil_append, List.append_assoc] at heq
    rw [← heq] at hends
    exact absurd hends hitem.not_endsList
  | _, _, _, _, _, _, .cons hitem _ hmore, .cons hitem' _ hmore', hends, hends', heq => by
    rw [List.append_assoc, List.append_assoc] at heq
    obtain ⟨rfl, hrest⟩ := hitem.unique hitem' heq
    obtain ⟨rfl, hend⟩ := hmore.unique hmore' hends hends' (List.cons.inj hrest).2
    exact ⟨rfl, hend⟩

end

/-- A token stream has at most one tree. -/
theorem Sentence.unique {tokens : List (Token Kind)} {items items' : List Item}
    (h : Sentence tokens items) (h' : Sentence tokens items') : items = items' := by
  obtain ⟨_, hitems, hfinal⟩ := h
  generalize htokens : _ ++ [_] = tokens at h'
  obtain ⟨_, hitems', hfinal'⟩ := h'
  exact (hitems.unique hitems' ⟨_, _, rfl, .inr hfinal⟩ ⟨_, _, rfl, .inr hfinal'⟩ htokens).1

/-! ## Valid tokens -/

mutual

/-- An item has no invalid token. -/
theorem Item.Derives.valid : ∀ {ts : List (Token Kind)} {item : Item}, item.Derives ts →
    ∀ t ∈ ts, t.kind ≠ .invalid
  | _, _, .word hname => by simp [hname]
  | _, _, .list hopening _ hitems hclosing => by
    have hinner := hitems.valid
    intro t ht
    rw [List.mem_cons, List.mem_append, List.mem_singleton] at ht
    obtain rfl | ht | rfl := ht
    · simp [hopening]
    · exact hinner t ht
    · simp [hclosing]

/-- Items have no invalid token. -/
theorem Items.valid : ∀ {ts : List (Token Kind)} {items : List Item}, Items ts items →
    ∀ t ∈ ts, t.kind ≠ .invalid
  | _, _, .nil => by simp
  | _, _, .cons hitem hsemicolon hmore => by
    have hfirst := hitem.valid
    have hrest := hmore.valid
    intro t ht
    rw [List.mem_append, List.mem_cons] at ht
    obtain ht | rfl | ht := ht
    · exact hfirst t ht
    · simp [hsemicolon]
    · exact hrest t ht

end

/-- No token of a word list is invalid. -/
theorem Sentence.valid {tokens : List (Token Kind)} {items : List Item}
    (h : Sentence tokens items) : ∀ t ∈ tokens, t.kind ≠ .invalid := by
  obtain ⟨_, hitems, hfinal⟩ := h
  intro t ht
  rw [List.mem_append, List.mem_singleton] at ht
  obtain ht | rfl := ht
  · exact hitems.valid t ht
  · simp [hfinal]

end SinglePass.WordList
