import SinglePass.Proofs.ScopeDiscipline
import SinglePass.Proofs.Settling.Passes
import SinglePass.Proofs.WordLists.Syntax

/-!
# Recognizing word lists

What a run of word lists that stops at its first fault reads, for as long as it finds none.

* `Yields` says what holds of such a run if it ends with a value, and `Obtains` that it does end
  with one, unless for want of fuel.  Both are carried along a sequence of recognizers.
* `Reads` is what a rule does when all is well: it consumes the tokens of some items, notes down
  their words and binds those that are not in a list of their own.
* `yields_item` and `yields_listOf`: a rule that ends with a value has read items that may stand
  where they do.
* `Item.Derives.obtained` and `Items.obtained`: on the tokens of such items it does so.
* `yields_toEnd` and `obtains_toEnd` say both of whole word lists.
-/

namespace SinglePass

/-! ## Runs that stop at their first fault -/

section

variable {κ τ ω α β : Type}

/-- If the run that stops at its first fault ends with a value, then with one of this kind. -/
def Yields (r : Recognizer κ τ ω α) (s : State κ τ ω) (p : α → State κ τ ω → Prop) : Prop :=
  ∀ a t, r .failFast s = (.value a, t) → p a t

/-- The run that stops at its first fault ends with a value of this kind, if the fuel does not run
out. -/
def Obtains (r : Recognizer κ τ ω α) (s : State κ τ ω) (p : α → State κ τ ω → Prop) : Prop :=
  (r .failFast s).1 ≠ .outOfFuel → ∃ a t, r .failFast s = (.value a, t) ∧ p a t

variable {r r' : Recognizer κ τ ω α} {f : α → Recognizer κ τ ω β} {s t : State κ τ ω} {a : α}
  {p p' : α → State κ τ ω → Prop} {q : β → State κ τ ω → Prop}

namespace Yields

/-- A run with one end is told by that end. -/
theorem of_value (h : r .failFast s = (.value a, t)) (hp : p a t) : Yields r s p := by
  intro b u hrun
  rw [h] at hrun
  cases hrun
  exact hp

/-- A run that gives up has no value to tell of. -/
theorem of_abort (h : r .failFast s = (.abort, t)) : Yields r s p := by
  intro b u hrun
  rw [h] at hrun
  nomatch hrun

/-- A run without fuel has no value to tell of. -/
theorem outOfFuel : Yields Recognizer.outOfFuel s p := fun _ _ hrun => nomatch hrun

/-- What holds of a run holds of one that is equal to it. -/
theorem congr (h : Yields r t p) (heq : r' .failFast s = r .failFast t) : Yields r' s p := by
  intro a t hrun
  exact h a t (heq.symm.trans hrun)

/-- What is known of the end may be weakened. -/
theorem imp (h : Yields r s p) (himp : ∀ a t, p a t → p' a t) : Yields r s p' :=
  fun a t hrun => himp a t (h a t hrun)

/-- What is known of the first part may be used of the second. -/
theorem bind (hr : Yields r s p) (hf : ∀ a t, p a t → Yields (f a) t q) :
    Yields (r >>= f) s q := by
  intro b u hrun
  rw [Recognizer.bind_apply] at hrun
  generalize he : r .failFast s = e at hrun
  obtain ⟨a | _ | _, t⟩ := e
  · exact hf a t (hr a t he) b u hrun
  · nomatch hrun
  · nomatch hrun

/-- A first part whose end is known. -/
theorem bind_of_value (h : r .failFast s = (.value a, t)) (hf : Yields (f a) t q) :
    Yields (r >>= f) s q :=
  (of_value (p := fun b u => b = a ∧ u = t) h ⟨rfl, rfl⟩).bind fun _ _ hp => by
    obtain ⟨rfl, rfl⟩ := hp
    exact hf

end Yields

namespace Obtains

/-- A run with one end ends with that. -/
theorem of_value (h : r .failFast s = (.value a, t)) (hp : p a t) : Obtains r s p :=
  fun _ => ⟨a, t, h, hp⟩

/-- A run without fuel is not asked for an end. -/
theorem outOfFuel : Obtains Recognizer.outOfFuel s p := fun hfuel => absurd rfl hfuel

/-- What a run ends with is the end of one that is equal to it. -/
theorem congr (h : Obtains r t p) (heq : r' .failFast s = r .failFast t) : Obtains r' s p := by
  unfold Obtains at h ⊢
  rw [heq]
  exact h

/-- What is known of the end may be weakened. -/
theorem imp (h : Obtains r s p) (himp : ∀ a t, p a t → p' a t) : Obtains r s p' := by
  intro hfuel
  obtain ⟨a, t, hrun, hp⟩ := h hfuel
  exact ⟨a, t, hrun, himp a t hp⟩

/-- Where the first part ends with a value, the second goes on from there. -/
theorem bind (hr : Obtains r s p) (hf : ∀ a t, p a t → Obtains (f a) t q) :
    Obtains (r >>= f) s q := by
  intro hfuel
  have hfirst : (r .failFast s).1 ≠ .outOfFuel := by
    intro hout
    apply hfuel
    rw [Recognizer.bind_apply]
    generalize r .failFast s = e at hout
    obtain ⟨o, t⟩ := e
    cases hout
    rfl
  obtain ⟨a, t, hrun, hp⟩ := hr hfirst
  rw [Recognizer.bind_of_value hrun] at hfuel ⊢
  exact hf a t hp hfuel

/-- A first part whose end is known. -/
theorem bind_of_value (h : r .failFast s = (.value a, t)) (hf : Obtains (f a) t q) :
    Obtains (r >>= f) s q :=
  (of_value (p := fun b u => b = a ∧ u = t) h ⟨rfl, rfl⟩).bind fun _ _ hp => by
    obtain ⟨rfl, rfl⟩ := hp
    exact hf

end Obtains

/-! ### Declarations and scopes -/

variable {outer : ScopeStack κ τ} {table : Table κ τ} {symbol : Symbol κ τ}

/-- A name that its scope binds is a fault. -/
theorem Recognizer.declare_of_mem (h : s.scopes = outer.push table)
    (hmem : symbol.name ∈ table.names) : ∃ t, declare symbol .failFast s = (.abort, t) := by
  have hdefined : table.isDefined symbol.name = true := Table.isDefined_iff_mem_names.2 hmem
  obtain ⟨first, hfirst⟩ := Option.isSome_iff_exists.1 hdefined
  have hlocal : s.scopes.local? symbol.name = some first := by
    rw [h, ScopeStack.local?_push, hfirst]
  refine ⟨s.record (.alreadyDeclared symbol.token first), ?_⟩
  rw [declare_of_local?_eq_some hlocal]
  exact bind_of_abort (report_failFast _ s) _

/-- A name that is new in its scope is bound there. -/
theorem Recognizer.declare_of_not_mem (h : s.scopes = outer.push table)
    (hmem : symbol.name ∉ table.names) :
    declare symbol .failFast s =
      (.value true, { s with scopes := outer.push (table.push symbol) }) := by
  have hfree : table.isDefined symbol.name = false :=
    Bool.eq_false_iff.2 fun hdefined => hmem (Table.isDefined_iff_mem_names.1 hdefined)
  have hlocal : s.scopes.local? symbol.name = none := by
    rw [h, ScopeStack.local?_push, Option.not_isSome_iff_eq_none.1 (Bool.eq_false_iff.1 hfree)]
  rw [declare_of_local?_eq_none hlocal, bindSymbol_of_push .failFast h,
    Table.add_of_not_isDefined hfree]

/-- The state with an empty scope inside its scopes. -/
def State.opened (s : State κ τ ω) : State κ τ ω := { s with scopes := s.scopes.openScope }

/-- Whether a run is ready does not depend on its scopes. -/
theorem State.Ready.withScopes [TokenKind κ] (hs : s.Ready) (scopes : ScopeStack κ τ) :
    State.Ready { s with scopes } :=
  ⟨hs.calm, hs.scansOnly, hs.terminated⟩

/-- Opening a scope leaves a run ready. -/
theorem State.Ready.opened [TokenKind κ] (hs : s.Ready) : s.opened.Ready := hs.withScopes _

/-- Opening a scope always goes through. -/
theorem Recognizer.openScope_opened (s : State κ τ ω) :
    openScope .failFast s = (.value (), s.opened) := rfl

/-- Closing a scope takes off the level that lies on top. -/
theorem Recognizer.closeScope_of_push (h : s.scopes = outer.push table) :
    closeScope .failFast s = (.value true, { s with scopes := outer }) := by
  rw [closeScope, h, ScopeStack.closeScope_push]

/-- A rule in a scope of its own leaves the scopes as they were. -/
theorem Yields.inScope {p : State κ τ ω → Prop}
    (h : Yields r s.opened fun _ t => (∃ table, t.scopes = s.scopes.push table) ∧
      p { t with scopes := s.scopes }) : Yields r.inScope s fun _ t => p t := by
  refine .bind_of_value (Recognizer.openScope_opened s) (h.bind fun a t ht => ?_)
  obtain ⟨⟨table, hscopes⟩, hp⟩ := ht
  exact .bind_of_value (Recognizer.closeScope_of_push hscopes) (.of_value rfl hp)

/-- A rule in a scope of its own leaves the scopes as they were. -/
theorem Obtains.inScope {p : State κ τ ω → Prop}
    (h : Obtains r s.opened fun _ t => (∃ table, t.scopes = s.scopes.push table) ∧
      p { t with scopes := s.scopes }) : Obtains r.inScope s fun _ t => p t := by
  refine .bind_of_value (Recognizer.openScope_opened s) (h.bind fun a t ht => ?_)
  obtain ⟨⟨table, hscopes⟩, hp⟩ := ht
  exact .bind_of_value (Recognizer.closeScope_of_push hscopes) (.of_value rfl hp)

end

namespace WordList

open Recognizer

variable {outer : ScopeStack Kind Ty} {names : List String} {s t u : State Kind Ty String}
  {ts us : List (Token Kind)} {items more : List Item}

/-! ## Reading items -/

/-- The innermost scope binds these names. -/
def Binds (outer : ScopeStack Kind Ty) (names : List String) (s : State Kind Ty String) : Prop :=
  ∃ table : Table Kind Ty, s.scopes = outer.push table ∧ table.names = names

/-- The run consumes these tokens and notes down the words among them. -/
structure Consumes (s : State Kind Ty String) (ts : List (Token Kind))
    (t : State Kind Ty String) : Prop where
  ready : t.Ready
  input_eq : s.input = ts ++ t.input
  notes_eq : t.notes = s.notes ++ wordTexts ts

/-- The run consumes the tokens of the items, notes down their words and binds those that are not in
a list of their own. -/
structure Reads (outer : ScopeStack Kind Ty) (names : List String) (s : State Kind Ty String)
    (ts : List (Token Kind)) (items : List Item) (t : State Kind Ty String) : Prop extends
    Consumes s ts t where
  binds : Binds outer (names ++ ownWords items) t

/-- Nothing is read where nothing is consumed. -/
theorem Reads.refl (hs : s.Ready) (hbinds : Binds outer names s) :
    Reads outer names s [] [] s := by
  refine ⟨⟨hs, rfl, (List.append_nil _).symm⟩, ?_⟩
  rwa [show ownWords [] = [] from rfl, List.append_nil]

/-- What is read in two parts is read as a whole. -/
theorem Reads.trans (h : Reads outer names s ts items t)
    (h' : Reads outer (names ++ ownWords items) t us more u) :
    Reads outer names s (ts ++ us) (items ++ more) u := by
  refine ⟨⟨h'.ready, ?_, ?_⟩, ?_⟩
  · rw [h.input_eq, h'.input_eq, List.append_assoc]
  · rw [h'.notes_eq, h.notes_eq, wordTexts_append, List.append_assoc]
  · rw [ownWords_append, ← List.append_assoc]
    exact h'.binds

/-- A token behind some items adds no item. -/
theorem Reads.andToken {token : Token Kind} (h : Reads outer names s ts items t)
    (h' : Reads outer (names ++ ownWords items) t [token] [] u) :
    Reads outer names s (ts ++ [token]) items u := by
  rw [← List.append_nil items]
  exact h.trans h'

/-- Any token but a word leaves no trace. -/
theorem reads_shift (hs : s.Ready) (hbinds : Binds outer names s)
    (hword : s.lookahead.kind ≠ .word) (hend : s.lookahead.kind ≠ .endOfFile) :
    Reads outer names s [s.lookahead] [] s.shift := by
  obtain ⟨hready, hafter, -⟩ := hs.shift hend
  refine ⟨⟨hready, ?_, ?_⟩, ?_⟩
  · rw [hafter.input_eq]
    rfl
  · rw [State.shift_notes, wordTexts_singleton_of_ne hword, List.append_nil]
  · obtain ⟨table, hscopes, hnames⟩ := hbinds
    refine ⟨table, (State.shift_scopes s).trans hscopes, ?_⟩
    rw [hnames, show ownWords [] = [] from rfl, List.append_nil]

/-! ### The rule of items, by the token that it looks at -/

/-- At a word, an item declares it. -/
theorem item_of_word (n : Nat) (hk : s.lookahead.kind = .word) :
    item (n + 1) .failFast s =
      (declare (.var s.lookahead .int) >>= fun _ => pure ()) .failFast
        { s.shift with notes := s.notes ++ [s.lookahead.text] } := by
  have hsees : (sees .word : Rule Bool) .failFast s = (.value true, s) := by
    simp [sees, Recognizer.read, hk]
  have hadvance : (advance : Rule _) .failFast s = (.value s.lookahead, s.shift) := rfl
  have hnote : (note s.lookahead.text : Rule Unit) .failFast s.shift =
      (.value (), { s.shift with notes := s.notes ++ [s.lookahead.text] }) := by
    rw [← State.shift_notes s]
    rfl
  unfold item
  rw [bind_of_value hsees, if_pos rfl, bind_of_value hadvance, bind_of_value hnote]

/-- A word that is new in its scope is read. -/
theorem item_of_fresh (n : Nat) (hs : s.Ready) (hbinds : Binds outer names s)
    (hk : s.lookahead.kind = .word) (hfresh : s.lookahead.text ∉ names) :
    ∃ t, item (n + 1) .failFast s = (.value (), t) ∧
      Reads outer names s [s.lookahead] [.word s.lookahead] t := by
  obtain ⟨table, hscopes, rfl⟩ := hbinds
  obtain ⟨hready, hafter, -⟩ := hs.shift (by rw [hk]; decide)
  have hdeclare : declare (.var s.lookahead .int) .failFast
      { s.shift with notes := s.notes ++ [s.lookahead.text] } = (.value true, _) :=
    declare_of_not_mem ((State.shift_scopes s).trans hscopes) hfresh
  refine ⟨{ s.shift with
    notes := s.notes ++ [s.lookahead.text]
    scopes := outer.push (table.push (.var s.lookahead .int)) }, ?_, ⟨⟨?_, ?_, ?_⟩, ?_⟩⟩
  · rw [item_of_word n hk, bind_of_value hdeclare, pure_apply]
  · exact ⟨hready.calm, hready.scansOnly, hready.terminated⟩
  · exact congrArg (s.lookahead :: ·) hafter.input_eq.symm
  · rw [wordTexts_singleton hk]
  · exact ⟨_, rfl, List.map_append⟩

/-- A word that its scope has already is a fault. -/
theorem item_of_mem (n : Nat) (hbinds : Binds outer names s) (hk : s.lookahead.kind = .word)
    (hmem : s.lookahead.text ∈ names) : ∃ t, item (n + 1) .failFast s = (.abort, t) := by
  obtain ⟨table, hscopes, rfl⟩ := hbinds
  obtain ⟨t, hdeclare⟩ : ∃ t, declare (.var s.lookahead .int) .failFast
      { s.shift with notes := s.notes ++ [s.lookahead.text] } = (.abort, t) :=
    declare_of_mem ((State.shift_scopes s).trans hscopes) hmem
  exact ⟨t, by rw [item_of_word n hk, bind_of_abort hdeclare]⟩

/-- At a parenthesis, an item is a list in a scope of its own. -/
theorem item_of_paren (n : Nat) (hk : s.lookahead.kind = .leftParen) :
    item (n + 1) .failFast s =
      (inScope (listOf (item n) >>= fun _ => mustBe .rightParen >>= fun _ => pure ())) .failFast
        s.shift := by
  have hsees : (sees .word : Rule Bool) .failFast s = (.value false, s) := by
    simp [sees, Recognizer.read, hk]
  rw [item_succ_eq, bind_of_value hsees, if_neg Bool.false_ne_true,
    bind_of_value (accept_of_kind_eq .failFast hk), if_pos rfl]

/-- At anything else, an item gives up. -/
theorem item_of_other (n : Nat) (hword : s.lookahead.kind ≠ .word)
    (hparen : s.lookahead.kind ≠ .leftParen) :
    ∃ t, item (n + 1) .failFast s = (.abort, t) := by
  have hsees : (sees .word : Rule Bool) .failFast s = (.value false, s) := by
    simp [sees, Recognizer.read, hword]
  refine ⟨s.record (.unexpected s.lookahead (.description "a word or '('")), ?_⟩
  rw [item_succ_eq, bind_of_value hsees, if_neg Bool.false_ne_true,
    bind_of_value (accept_of_kind_ne .failFast hparen), if_neg Bool.false_ne_true]
  rfl

/-- A list in a scope of its own declares nothing around it. -/
theorem Reads.close (h : Reads s.scopes [] s.opened ts items t) (hbinds : Binds outer names s) :
    Reads outer names s ts [.list items] { t with scopes := s.scopes } := by
  refine ⟨⟨h.ready.withScopes _, h.input_eq, h.notes_eq⟩, ?_⟩
  rw [show ownWords [.list items] = [] from rfl, List.append_nil]
  exact hbinds

/-- A new scope binds nothing yet. -/
theorem binds_opened (s : State Kind Ty String) : Binds s.scopes [] s.opened :=
  ⟨.empty, ScopeStack.openScope_eq_push _, rfl⟩

/-! ## What a run has read -/

/-- The run has read items that may stand where they do. -/
structure Accepts (outer : ScopeStack Kind Ty) (names : List String) (s : State Kind Ty String)
    (ts : List (Token Kind)) (items : List Item) (t : State Kind Ty String) : Prop extends
    Reads outer names s ts items t where
  derives : Items ts items
  fresh : Fresh names items

/-- Nothing is accepted where nothing is consumed. -/
theorem Accepts.refl (hs : s.Ready) (hbinds : Binds outer names s) :
    Accepts outer names s [] [] s :=
  ⟨.refl hs hbinds, .nil, fresh_nil names⟩

/-- What is accepted in two parts is accepted as a whole. -/
theorem Accepts.trans (h : Accepts outer names s ts items t)
    (h' : Accepts outer (names ++ ownWords items) t us more u) :
    Accepts outer names s (ts ++ us) (items ++ more) u :=
  ⟨h.toReads.trans h'.toReads, h.derives.append h'.derives, fresh_append.2 ⟨h.fresh, h'.fresh⟩⟩

/-- A rule that ends with a value has read an item that may stand where it does. -/
def YieldsItem (rule : Rule Unit) (outer : ScopeStack Kind Ty) (names : List String)
    (s : State Kind Ty String) : Prop :=
  Yields rule s fun _ t => ∃ ts item, item.Derives ts ∧ Fresh names [item] ∧
    Reads outer names s ts [item] t

/-- A token that is required, and is no word, is read without an item. -/
theorem yields_mustBe {kind : Kind} (hs : s.Ready) (hbinds : Binds outer names s)
    (hword : kind ≠ .word) (hend : kind ≠ .endOfFile) :
    Yields (mustBe kind) s fun _ t => ∃ token, token.kind = kind ∧
      Reads outer names s [token] [] t := by
  by_cases hk : s.lookahead.kind = kind
  · refine .of_value (mustBe_of_kind_eq .failFast hs.calm hk) ⟨s.lookahead, hk, ?_⟩
    exact reads_shift hs hbinds (by rwa [hk]) (by rwa [hk])
  · exact .of_abort (mustBe_failFast_of_kind_ne hs.calm hk)

/-- An item with its end mark is an item that is accepted. -/
theorem yields_terminatedItem {rule : Rule Unit} (hrule : YieldsItem rule outer names s) :
    Yields (terminatedItem rule) s fun _ t => ∃ ts item, Accepts outer names s ts [item] t := by
  refine Yields.bind hrule fun _ t ht => ?_
  obtain ⟨ts, item, hderives, hfresh, hreads⟩ := ht
  refine (yields_mustBe hreads.ready hreads.binds (by decide) (by decide)).bind fun _ u hu => ?_
  obtain ⟨semicolon, hsemicolon, hreads'⟩ := hu
  exact .of_value rfl ⟨ts ++ [semicolon], item, hreads.andToken hreads',
    .cons hderives hsemicolon .nil, hfresh⟩

section

variable {rule : Rule Unit}

/-- Every round of a loop reads one more item. -/
theorem yields_iterate
    (hrule : ∀ names s, s.Ready → Binds outer names s → YieldsItem rule outer names s)
    (test : Kind → Bool) (n : Nat) (hs : s.Ready) (hbinds : Binds outer names s) :
    Yields (iterate test (fun _ => terminatedItem rule) n ()) s fun _ t =>
      ∃ ts items, Accepts outer names s ts items t := by
  induction n generalizing names s with
  | zero => exact .outOfFuel
  | succ n ih =>
    cases htest : test s.lookahead.kind with
    | false => exact .of_value (iterate_of_not_test htest n ()) ⟨[], [], .refl hs hbinds⟩
    | true =>
      refine Yields.congr ?_ (iterate_of_test htest n ())
      refine (yields_terminatedItem (hrule names s hs hbinds)).bind fun _ t ht => ?_
      obtain ⟨ts, item, hfirst⟩ := ht
      refine (ih hfirst.ready hfirst.binds).imp fun _ u hu => ?_
      obtain ⟨us, more, hmore⟩ := hu
      exact ⟨ts ++ us, [item] ++ more, hfirst.trans hmore⟩

/-- A list that ends with a value has read some items, at least one. -/
theorem yields_listOf
    (hrule : ∀ names s, s.Ready → Binds outer names s → YieldsItem rule outer names s)
    (hs : s.Ready) (hbinds : Binds outer names s) :
    Yields (listOf rule) s fun _ t => ∃ ts items, items ≠ [] ∧
      Accepts outer names s ts items t := by
  refine (yields_terminatedItem (hrule names s hs hbinds)).bind fun _ t ht => ?_
  obtain ⟨ts, item, hfirst⟩ := ht
  refine (yields_iterate hrule _ _ hfirst.ready hfirst.binds).imp fun _ u hu => ?_
  obtain ⟨us, more, hmore⟩ := hu
  exact ⟨ts ++ us, [item] ++ more, List.cons_ne_nil _ _, hfirst.trans hmore⟩

/-- A list and its closing parenthesis, in a scope of its own. -/
theorem yields_nested {around : ScopeStack Kind Ty} {names : List String}
    (hs : s.Ready) (hbinds : Binds around names s)
    (hrule : ∀ names t, t.Ready → Binds s.scopes names t → YieldsItem rule s.scopes names t) :
    Yields (inScope (listOf rule >>= fun _ => mustBe .rightParen >>= fun _ => pure ())) s fun _ t =>
      ∃ ts items closing, items ≠ [] ∧ closing.kind = .rightParen ∧ Items ts items ∧
        Fresh [] items ∧ Reads around names s (ts ++ [closing]) [.list items] t := by
  refine Yields.inScope ((yields_listOf hrule hs.opened (binds_opened s)).bind fun _ t ht => ?_)
  obtain ⟨ts, items, hne, hitems⟩ := ht
  refine (yields_mustBe hitems.ready hitems.binds (by decide) (by decide)).bind fun _ u hu => ?_
  obtain ⟨closing, hclosing, hreads⟩ := hu
  have hall := hitems.toReads.andToken hreads
  obtain ⟨table, hscopes, -⟩ := hall.binds
  exact .of_value rfl ⟨⟨table, hscopes⟩, ts, items, closing, hne, hclosing, hitems.derives,
    hitems.fresh, hall.close hbinds⟩

end

/-- By induction on the fuel, which bounds how deep the parentheses nest. -/
theorem yields_item (n : Nat) (hs : s.Ready) (hbinds : Binds outer names s) :
    YieldsItem (item n) outer names s := by
  induction n generalizing outer names s with
  | zero => exact .outOfFuel
  | succ n ih =>
    by_cases hword : s.lookahead.kind = .word
    · by_cases hmem : s.lookahead.text ∈ names
      · obtain ⟨t, hrun⟩ := item_of_mem n hbinds hword hmem
        exact .of_abort hrun
      · obtain ⟨t, hrun, hreads⟩ := item_of_fresh n hs hbinds hword hmem
        exact .of_value hrun ⟨_, _, .word hword, fresh_word.2 hmem, hreads⟩
    · by_cases hparen : s.lookahead.kind = .leftParen
      · refine Yields.congr ?_ (item_of_paren n hparen)
        have hopening := reads_shift hs hbinds hword (by rw [hparen]; decide)
        refine (yields_nested hopening.ready hopening.binds fun _ _ => ih).imp fun _ t ht => ?_
        obtain ⟨ts, items, closing, hne, hclosing, hitems, hfresh, hreads⟩ := ht
        exact ⟨s.lookahead :: (ts ++ [closing]), .list items, .list hparen hne hitems hclosing,
          fresh_list.2 hfresh, hopening.trans hreads⟩
      · obtain ⟨t, hrun⟩ := item_of_other n hword hparen
        exact .of_abort hrun

/-! ## What a run has to read -/

/-- What is consumed in front leaves the rest. -/
theorem Consumes.rest_eq {rest : List (Token Kind)} (h : Consumes s ts t)
    (heq : s.input = ts ++ rest) : t.input = rest :=
  List.append_cancel_left (h.input_eq.symm.trans heq)

/-- A token that is there is consumed. -/
theorem obtains_mustBe {token : Token Kind} {rest : List (Token Kind)} {kind : Kind}
    (hs : s.Ready) (hbinds : Binds outer names s) (heq : s.input = token :: rest)
    (hk : token.kind = kind) (hword : kind ≠ .word) (hend : kind ≠ .endOfFile) :
    Obtains (mustBe kind) s fun _ t => Reads outer names s [token] [] t := by
  obtain rfl : s.lookahead = token := (List.cons.inj heq).1
  subst hk
  exact .of_value (mustBe_of_kind_eq .failFast hs.calm rfl) (reads_shift hs hbinds hword hend)

/-- An item that is read goes on to its end mark. -/
theorem obtains_terminatedItem {rule : Rule Unit} {item : Item} {semicolon : Token Kind}
    {rest : List (Token Kind)} (hrule : Obtains rule s fun _ t => Reads outer names s ts [item] t)
    (heq : s.input = ts ++ semicolon :: rest) (hsemicolon : semicolon.kind = .semicolon) :
    Obtains (terminatedItem rule) s fun _ t =>
      Reads outer names s (ts ++ [semicolon]) [item] t := by
  refine hrule.bind fun _ t ht => ?_
  refine (obtains_mustBe ht.ready ht.binds (ht.rest_eq heq) hsemicolon (by decide)
    (by decide)).bind fun _ u hu => ?_
  exact .of_value rfl (ht.andToken hu)

/-- An item and what comes behind its semicolon. -/
theorem obtains_cons {rule : Rule Unit} {after : Unit → Rule Unit} {item : Item}
    {semicolon : Token Kind} {rest : List (Token Kind)}
    (hrule : Obtains rule s fun _ t => Reads outer names s ts [item] t)
    (hsemicolon : semicolon.kind = .semicolon) (heq : s.input = ts ++ semicolon :: (us ++ rest))
    (hafter : ∀ t, t.Ready → Binds outer (names ++ ownWords [item]) t → t.input = us ++ rest →
      Obtains (after ()) t fun _ u => Reads outer (names ++ ownWords [item]) t us more u) :
    Obtains (terminatedItem rule >>= after) s fun _ t =>
      Reads outer names s (ts ++ semicolon :: us) (item :: more) t := by
  refine (obtains_terminatedItem hrule heq hsemicolon).bind fun _ t ht => ?_
  have hrest : t.input = us ++ rest := by
    apply ht.rest_eq
    rw [heq, List.append_assoc, List.singleton_append]
  refine (hafter t ht.ready ht.binds hrest).imp fun _ u hu => ?_
  rw [← List.singleton_append, ← List.append_assoc]
  exact ht.trans hu

/-- A list and its closing parenthesis, in a scope of its own. -/
theorem obtains_nested {rule : Rule Unit} {closing : Token Kind} {rest : List (Token Kind)}
    (hbinds : Binds outer names s) (heq : s.input = ts ++ closing :: rest)
    (hclosing : closing.kind = .rightParen)
    (hlist : Obtains (listOf rule) s.opened fun _ t => Reads s.scopes [] s.opened ts items t) :
    Obtains (inScope (listOf rule >>= fun _ => mustBe .rightParen >>= fun _ => pure ())) s
      fun _ t => Reads outer names s (ts ++ [closing]) [.list items] t := by
  refine Obtains.inScope (hlist.bind fun _ t ht => ?_)
  refine (obtains_mustBe ht.ready ht.binds (ht.rest_eq heq) hclosing (by decide)
    (by decide)).bind fun _ u hu => ?_
  have hall := ht.andToken hu
  obtain ⟨table, hscopes, -⟩ := hall.binds
  exact .of_value rfl ⟨⟨table, hscopes⟩, hall.close hbinds⟩

/-- The loop of a list goes on at the first token of an item. -/
theorem goesOn_of_derives {item : Item} {rest : List (Token Kind)} (h : item.Derives ts)
    (heq : s.input = ts ++ rest) :
    (s.lookahead.kind ≠ .rightParen && s.lookahead.kind ≠ .endOfFile : Bool) = true := by
  obtain ⟨first, more, rfl, hfirst⟩ := h.first
  obtain rfl : s.lookahead = first := (List.cons.inj heq).1
  obtain hkind | hkind := hfirst <;> simp [hkind]

mutual

/-- By recursion on the derivation; the fuel is whatever it is. -/
theorem Item.Derives.obtained : ∀ {ts : List (Token Kind)} {i : Item}, i.Derives ts → ∀ (n : Nat)
    {outer : ScopeStack Kind Ty} {names : List String} {s : State Kind Ty String}
    {rest : List (Token Kind)}, s.Ready → Binds outer names s → Fresh names [i] →
    s.input = ts ++ rest → Obtains (item n) s fun _ t => Reads outer names s ts [i] t
  | _, _, _, 0, _, _, _, _, _, _, _, _ => .outOfFuel
  | _, _, .word hname, n + 1, _, _, s, _, hs, hbinds, hfresh, heq => by
    obtain ⟨rfl, -⟩ := List.cons.inj heq
    obtain ⟨t, hrun, hreads⟩ := item_of_fresh n hs hbinds hname (fresh_word.1 hfresh)
    exact .of_value hrun hreads
  | _, _, .list hopening hne hitems hclosing, n + 1, _, _, s, _, hs, hbinds, hfresh, heq => by
    obtain ⟨rfl, -⟩ := List.cons.inj heq
    have hopened := reads_shift hs hbinds (by rw [hopening]; decide) (by rw [hopening]; decide)
    have hinput := hopened.rest_eq heq
    rw [List.append_eq, List.append_assoc, List.singleton_append] at hinput
    have hlist := hitems.obtained n hopened.ready.opened (binds_opened _) (fresh_list.1 hfresh)
      hinput ⟨_, _, rfl, .inl hclosing⟩
    refine Obtains.congr ?_ (item_of_paren n hopening)
    exact (obtains_nested hopened.binds hinput hclosing (hlist.2 hne)).imp fun _ t ht =>
      hopened.trans ht

/-- Where items stand that may be bound, a list reads them. -/
theorem Items.obtained : ∀ {ts : List (Token Kind)} {items : List Item}, Items ts items →
    ∀ (n : Nat) {outer : ScopeStack Kind Ty} {names : List String} {s : State Kind Ty String}
    {rest : List (Token Kind)}, s.Ready → Binds outer names s → Fresh names items →
    s.input = ts ++ rest → EndsList rest →
    (∀ m, Obtains (iterate (fun kind => kind ≠ .rightParen && kind ≠ .endOfFile)
      (fun _ => terminatedItem (item n)) m ()) s fun _ t => Reads outer names s ts items t) ∧
    (items ≠ [] → Obtains (listOf (item n)) s fun _ t => Reads outer names s ts items t)
  | _, _, .nil, n, _, _, s, _, hs, hbinds, _, heq, hends => by
    refine ⟨fun m => ?_, fun hne => absurd rfl hne⟩
    cases m with
    | zero => exact .outOfFuel
    | succ m =>
      obtain ⟨first, more, rfl, hfirst⟩ := hends
      obtain rfl : s.lookahead = first := (List.cons.inj heq).1
      refine .of_value (iterate_of_not_test ?_ m ()) (.refl hs hbinds)
      obtain hkind | hkind := hfirst <;> simp [hkind]
  | _, _, .cons hitem hsemicolon hmore, n, _, _, s, _, hs, hbinds, hfresh, heq, hends => by
    -- The loop and the list both read an item and go on with the items behind it.
    obtain ⟨hfirst, hrest⟩ := fresh_cons.1 hfresh
    rw [List.append_assoc] at heq
    have hone := hitem.obtained n hs hbinds hfirst heq
    refine ⟨fun m => ?_, fun _ => ?_⟩
    · cases m with
      | zero => exact .outOfFuel
      | succ m =>
        refine Obtains.congr ?_ (iterate_of_test (goesOn_of_derives hitem heq) m ())
        exact obtains_cons hone hsemicolon heq fun t ht hb hinput =>
          (hmore.obtained n ht hb hrest hinput hends).1 m
    · exact obtains_cons hone hsemicolon heq fun t ht hb hinput =>
        (hmore.obtained n ht hb hrest hinput hends).1 (t.ahead.count + 1)

end

/-! ## Whole word lists -/

/-- A run of word lists that ends with a value has read a list whose words are distinct. -/
theorem yields_wordList (hs : s.Ready) :
    Yields wordList s fun _ t => ∃ ts items, items ≠ [] ∧ Items ts items ∧
      (Item.list items).Distinct ∧ Consumes s ts t ∧ t.scopes = s.scopes := by
  rw [wordList_eq]
  have hlist := yields_listOf (fun _ _ => yields_item (s.opened.ahead.count + 1)) hs.opened
    (binds_opened s)
  refine Yields.inScope (Yields.imp (Yields.congr hlist rfl) fun _ t ht => ?_)
  obtain ⟨ts, items, hne, hitems⟩ := ht
  obtain ⟨table, hscopes, -⟩ := hitems.binds
  exact ⟨⟨table, hscopes⟩, ts, items, hne, hitems.derives, fresh_nil_iff.1 hitems.fresh,
    ⟨hitems.ready.withScopes _, hitems.input_eq, hitems.notes_eq⟩, rfl⟩

/-- On the tokens of such a list it does so. -/
theorem obtains_wordList {rest : List (Token Kind)} (hs : s.Ready) (hne : items ≠ [])
    (hitems : Items ts items) (hdistinct : (Item.list items).Distinct)
    (heq : s.input = ts ++ rest) (hends : EndsList rest) :
    Obtains wordList s fun _ t => Consumes s ts t := by
  rw [wordList_eq]
  have hlist := (hitems.obtained (s.opened.ahead.count + 1) hs.opened (binds_opened s)
    (fresh_nil_iff.2 hdistinct) heq hends).2 hne
  refine Obtains.inScope (Obtains.imp (Obtains.congr hlist rfl) fun _ t ht => ?_)
  obtain ⟨table, hscopes, -⟩ := ht.binds
  exact ⟨⟨table, hscopes⟩, ht.ready.withScopes _, ht.input_eq, ht.notes_eq⟩

/-- **A run that ends has read a sentence with distinct words**, and noted all of its words. -/
theorem yields_toEnd (hs : s.Ready) :
    Yields wordList.toEnd s fun _ t => ∃ items, Sentence s.input items ∧
      (Item.list items).Distinct ∧ t.notes = s.notes ++ wordTexts s.input ∧
      t.scopes = s.scopes := by
  refine (yields_wordList hs).bind fun _ t ht => ?_
  obtain ⟨ts, items, hne, hitems, hdistinct, hconsumes, hscopes⟩ := ht
  have hmustEnd := mustEnd_of_calm hconsumes.ready.calm .failFast
  -- What follows the list is the end, or it is reported and the run is over.
  by_cases hend : t.lookahead.isEnd = true
  · rw [if_pos hend] at hmustEnd
    have hfinal : t.lookahead.kind = .endOfFile := Token.isEnd_eq_true.1 hend
    have hinput : s.input = ts ++ [t.lookahead] := by
      rw [hconsumes.input_eq, State.input,
        State.Placed.tokens_eq_nil hconsumes.ready.terminated hend]
      rfl
    refine .of_value hmustEnd ⟨items, ?_, hdistinct, ?_, hscopes⟩
    · rw [hinput]
      exact .intro hne hitems hfinal
    · rw [hconsumes.notes_eq, hinput, wordTexts_append,
        wordTexts_singleton_of_ne (by rw [hfinal]; decide), List.append_nil]
  · rw [if_neg hend] at hmustEnd
    exact .of_abort hmustEnd

/-- **On a sentence with distinct words the run ends.** -/
theorem obtains_toEnd (hs : s.Ready) (h : Sentence s.input items)
    (hdistinct : (Item.list items).Distinct) : Obtains wordList.toEnd s fun _ _ => True := by
  generalize hinput : s.input = tokens at h
  obtain ⟨hne, hitems, hfinal⟩ := h
  refine (obtains_wordList hs hne hitems hdistinct hinput ⟨_, _, rfl, .inr hfinal⟩).bind
    fun _ t ht => ?_
  have hlook : t.lookahead.kind = .endOfFile := by
    rw [(List.cons.inj (ht.rest_eq hinput)).1, hfinal]
  have hmustEnd := mustEnd_of_calm ht.ready.calm .failFast
  rw [if_pos (Token.isEnd_eq_true.2 hlook)] at hmustEnd
  exact .of_value hmustEnd trivial

end WordList

end SinglePass
