import SinglePass.Proofs.Facing
import SinglePass.Proofs.Dispatch

/-!
# Derivable expressions are recognized

A rule `Reads` some tokens as a construct if, in front of any token that cannot continue the
construct, it consumes exactly these tokens, answers what the walk of the syntax tree computes and
records what the walk lists.  Every derivation of an expression is read so (`Expr.Derives.reads`),
by induction on the derivation.

The rules for `Term` and `SimpleExpr` run a loop where the grammar recurses on the left.  What is
carried through the induction is therefore not the end of the loop but its state: after the tokens
of a derivation the loop stands where it would go on with the next operator, with the expression
derived so far as its operand (`Advances`).
-/

namespace SinglePass.Simple

open Recognizer

/-! ## Reading -/

section

variable {α β : Type}

/-- The rule reads the tokens `ts` as `a`: with at most `n` tokens to come and in front of a token
that `stop` allows, it consumes them, answers `a`, records the faults and does nothing else. -/
def Reads (rule : GrammarRule α) (n : Nat) (stop : Kind → Prop) (env : Env)
    (ts : List (Token Kind)) (a : α) (faults : Faults) : Prop :=
  ∀ (x : Token Kind) (rest : List (Token Kind)) (sink : Faults) (notes : List (Symbol Kind Ty)),
    stop x.kind → (ts ++ x :: rest).length ≤ n →
      rule .recovering (facing (ts ++ x :: rest) env sink notes) =
        (.value a, facing (x :: rest) env (sink ++ faults) notes)

/-- Behind a phrase comes either the next comma or what comes behind all phrases. -/
theorem CommaRepeated.next {Derives : List (Token Kind) → α → Prop} {us : List (Token Kind)}
    {as : List α} (h : CommaRepeated Derives us as) (x : Token Kind) (rest : List (Token Kind)) :
    ∃ y ys, us ++ x :: rest = y :: ys ∧ (y.kind = .comma ∨ y = x) := by
  cases h with
  | nil => exact ⟨x, rest, rfl, .inr rfl⟩
  | cons hcomma _ _ => exact ⟨_, _, rfl, .inl hcomma⟩

/-- The loop over what follows a first phrase, if it collects the answers, reads all phrases. -/
theorem iterate_comma_reads {item : GrammarRule β} {n : Nat} {stop : Kind → Prop} {env : Env}
    {value : α → β} {faults : α → Faults} (hstop : stop .comma) {us : List (Token Kind)}
    {as : List α}
    (h : CommaRepeated (fun ts a => Reads item n stop env ts (value a) (faults a)) us as)
    (m : Nat) (bs : List β) (x : Token Kind) (rest : List (Token Kind)) (sink : Faults)
    (notes : List (Symbol Kind Ty)) (hx : stop x.kind) (hcomma : x.kind ≠ .comma)
    (hn : (us ++ x :: rest).length ≤ n) (hm : (us ++ x :: rest).length ≤ m) :
    iterate (· = .comma) (fun bs => do
        let _ ← advance
        return bs ++ [← item]) m bs .recovering (facing (us ++ x :: rest) env sink notes) =
      (.value (bs ++ as.map value), facing (x :: rest) env (sink ++ as.flatMap faults) notes) := by
  induction h generalizing m bs sink with
  | nil =>
    rw [List.nil_append, List.map_nil, List.flatMap_nil, List.append_nil, List.append_nil]
    apply iterate_facing_of_not_test
    · simp only [List.nil_append, List.length_cons] at hm
      omega
    · simpa using hcomma
  | @cons comma ts us a as hk hitem htail ih =>
    -- Behind a phrase comes another comma or what ends the list, and the phrase stops at both.
    obtain ⟨y, ys, hnext, hy⟩ := htail.next x rest
    have hystop : stop y.kind := by
      rcases hy with hy | rfl
      · rw [hy]
        exact hstop
      · exact hx
    simp only [List.cons_append, List.append_assoc, List.length_cons, List.length_append] at hn hm
    obtain ⟨m, rfl⟩ : ∃ k, m = k + 1 := ⟨m - 1, by omega⟩
    have hlength : (ts ++ y :: ys).length ≤ n := by
      rw [← hnext]
      simp only [List.length_append, List.length_cons]
      omega
    rw [List.cons_append, List.append_assoc, iterate_facing_of_test _ (by simp [hk]),
      List.map_cons, List.flatMap_cons]
    have hbody : (do
        let _ ← advance
        return bs ++ [← item] : GrammarRule (List β)) .recovering
          (facing (comma :: (ts ++ (us ++ x :: rest))) env sink notes) =
        (.value (bs ++ [value a]), facing (us ++ x :: rest) env (sink ++ faults a) notes) := by
      rw [bind_of_value (advance_facing (by simp)), hnext,
        bind_of_value (hitem y ys sink notes hystop hlength), pure_apply]
    rw [bind_of_value hbody, ih m _ _ (by simp only [List.length_append, List.length_cons]; omega)
      (by simp only [List.length_append, List.length_cons]; omega)]
    simp only [List.append_assoc, List.singleton_append]

/-- Phrases with commas between them are read by the rule for the first one and a loop for the
others, which collects the answers behind the first. -/
theorem commaList_reads {item : GrammarRule β} {n : Nat} {stop : Kind → Prop} {env : Env}
    {value : α → β} {faults : α → Faults} (hstop : stop .comma) {ts us : List (Token Kind)} {a : α}
    {as : List α} (hfirst : Reads item n stop env ts (value a) (faults a))
    (hmore : CommaRepeated (fun ts a => Reads item n stop env ts (value a) (faults a)) us as)
    (x : Token Kind) (rest : List (Token Kind)) (sink : Faults) (notes : List (Symbol Kind Ty))
    (hx : stop x.kind) (hcomma : x.kind ≠ .comma) (hn : (ts ++ (us ++ x :: rest)).length ≤ n) :
    item .recovering (facing (ts ++ (us ++ x :: rest)) env sink notes) =
        (.value (value a), facing (us ++ x :: rest) env (sink ++ faults a) notes) ∧
      whileSees (· = .comma) (fun bs => do
          let _ ← advance
          return bs ++ [← item]) [value a] .recovering
            (facing (us ++ x :: rest) env (sink ++ faults a) notes) =
        (.value ((a :: as).map value),
          facing (x :: rest) env (sink ++ (a :: as).flatMap faults) notes) := by
  obtain ⟨y, ys, hnext, hy⟩ := hmore.next x rest
  have hystop : stop y.kind := by
    rcases hy with hy | rfl
    · rw [hy]
      exact hstop
    · exact hx
  have hmoreLength : (us ++ x :: rest).length ≤ n := by
    rw [List.length_append] at hn
    omega
  constructor
  · rw [hnext] at hn ⊢
    exact hfirst y ys sink notes hystop hn
  · have hloop := iterate_comma_reads hstop hmore (us ++ x :: rest).length [value a] x rest
      (sink ++ faults a) notes hx hcomma hmoreLength (Nat.le_refl _)
    rw [List.singleton_append] at hloop
    rw [List.map_cons, List.flatMap_cons, ← List.append_assoc, ← hloop, hnext]
    exact withFuel_facing fun m => iterate (· = .comma) (fun bs => do
      let _ ← advance
      return bs ++ [← item]) m [value a]

end

/-! ## What ends an expression -/

/-- The kinds of tokens in front of which an expression of the given strength is complete. -/
def Strength.Stops : Strength → Kind → Prop
  | factor, kind => kind ≠ .leftBracket
  | term, kind => kind ≠ .leftBracket ∧ kind ∉ factorOperators
  | simple, kind => (kind ≠ .leftBracket ∧ kind ∉ factorOperators) ∧ kind ∉ termOperators
  | full, kind =>
    ((kind ≠ .leftBracket ∧ kind ∉ factorOperators) ∧ kind ∉ termOperators) ∧
      kind.isRelational = false

instance (strength : Strength) : DecidablePred strength.Stops := fun kind =>
  match strength with
  | .factor => inferInstanceAs (Decidable (kind ≠ .leftBracket))
  | .term => inferInstanceAs (Decidable (kind ≠ .leftBracket ∧ kind ∉ factorOperators))
  | .simple => inferInstanceAs (Decidable
      ((kind ≠ .leftBracket ∧ kind ∉ factorOperators) ∧ kind ∉ termOperators))
  | .full => inferInstanceAs (Decidable
      (((kind ≠ .leftBracket ∧ kind ∉ factorOperators) ∧ kind ∉ termOperators) ∧
        kind.isRelational = false))

/-- A factor is complete in front of an operator of its term. -/
theorem stops_factorOperators {kind : Kind} (h : kind ∈ factorOperators) :
    Strength.factor.Stops kind := by
  rintro rfl
  simp [factorOperators] at h

/-- A term is complete in front of an operator of its simple expression. -/
theorem stops_termOperators {kind : Kind} (h : kind ∈ termOperators) :
    Strength.term.Stops kind := by
  simp only [termOperators, List.mem_cons, List.not_mem_nil, or_false] at h
  rcases h with rfl | rfl | rfl
  · decide
  · decide
  · decide

/-- A simple expression is complete in front of a comparison operator. -/
theorem stops_isRelational {kind : Kind} (h : kind.isRelational = true) :
    Strength.simple.Stops kind := by
  refine ⟨⟨?_, ?_⟩, ?_⟩
  · rintro rfl
    simp [Kind.isRelational] at h
  · intro hmem
    simp only [factorOperators, List.mem_cons, List.not_mem_nil, or_false] at hmem
    rcases hmem with rfl | rfl | rfl <;> simp [Kind.isRelational] at h
  · intro hmem
    simp only [termOperators, List.mem_cons, List.not_mem_nil, or_false] at hmem
    rcases hmem with rfl | rfl | rfl <;> simp [Kind.isRelational] at h

/-- A factor begins with a token that selects one of its alternatives. -/
theorem Expr.Derives.factor_head_mem {ts : List (Token Kind)} {e : Expr}
    (h : e.Derives .factor ts) : ∃ t us, ts = t :: us ∧ t.kind ∈ factorStarts := by
  cases h with
  | name h => exact ⟨_, _, rfl, by simp [h, factorStarts]⟩
  | element h _ _ _ _ => exact ⟨_, _, rfl, by simp [h, factorStarts]⟩
  | integer h => exact ⟨_, _, rfl, by simp [h, factorStarts]⟩
  | real h => exact ⟨_, _, rfl, by simp [h, factorStarts]⟩
  | boolean h =>
    rcases h with h | h
    · exact ⟨_, _, rfl, by simp [h, factorStarts]⟩
    · exact ⟨_, _, rfl, by simp [h, factorStarts]⟩
  | complement h _ => exact ⟨_, _, rfl, by simp [h, factorStarts]⟩
  | parentheses h _ _ => exact ⟨_, _, rfl, by simp [h, factorStarts]⟩

/-- A term begins with a factor. -/
theorem Expr.Derives.term_head_mem {ts : List (Token Kind)} {e : Expr} (h : e.Derives .term ts) :
    ∃ t us, ts = t :: us ∧ t.kind ∈ factorStarts := by
  -- by the number of tokens: the left operand of a product is a shorter term
  induction hlength : ts.length using Nat.strongRecOn generalizing ts e with
  | _ length ih =>
    cases h with
    | ofFactor h => exact h.factor_head_mem
    | @product op left right _ _ hl _ _ =>
      have hshort : left.length < length := by
        rw [← hlength, List.length_append, List.length_cons]
        omega
      obtain ⟨t, us, rfl, ht⟩ := ih _ hshort hl rfl
      exact ⟨t, _, rfl, ht⟩

/-- A term does not begin with a sign. -/
theorem Expr.Derives.head_ne_minus {ts : List (Token Kind)} {e : Expr} (h : e.Derives .term ts) :
    ∃ t us, ts = t :: us ∧ t.kind ≠ .minus := by
  obtain ⟨t, us, rfl, ht⟩ := h.term_head_mem
  refine ⟨t, us, rfl, ?_⟩
  intro hminus
  simp [hminus, factorStarts] at ht

/-! ## Loops over operators -/

/-- One round of the loop over operators. -/
def joined (operand : GrammarRule Operand) (left : Operand) : GrammarRule Operand := do
  let op ← advance
  combine op left (← operand)

/-- Behind the tokens `ts` the rule stands in its loop over operators with the expression `e` as
the left operand. -/
def Advances (rule operand : GrammarRule Operand) (operators : List Kind) (n : Nat)
    (stop : Kind → Prop) (env : Env) (ts : List (Token Kind)) (e : Expr) : Prop :=
  ∀ (x : Token Kind) (rest : List (Token Kind)) (sink : Faults) (notes : List (Symbol Kind Ty)),
    stop x.kind → (ts ++ x :: rest).length ≤ n →
      ∃ m, (x :: rest).length ≤ m ∧
        rule .recovering (facing (ts ++ x :: rest) env sink notes) =
          iterate (· ∈ operators) (joined operand) m (e.operand env) .recovering
            (facing (x :: rest) env (sink ++ e.faults env) notes)

section

variable {rule operand : GrammarRule Operand} {operators : List Kind} {n : Nat}
  {stop : Kind → Prop} {env : Env} {ts us : List (Token Kind)} {e l r : Expr} {op : Token Kind}

/-- The first operand leads into the loop. -/
theorem Advances.start (h : Reads rule n stop env ts (e.operand env) (e.faults env)) :
    Advances (rule >>= chain operators operand) operand operators n stop env ts e := by
  intro x rest sink notes hx hn
  refine ⟨(x :: rest).length, Nat.le_refl _, ?_⟩
  rw [bind_of_value (h x rest sink notes hx hn)]
  exact withFuel_facing fun n => iterate (· ∈ operators) (joined operand) n (e.operand env)

/-- An operator with its right operand takes the loop around once. -/
theorem Advances.next (hl : Advances rule operand operators n stop env ts l)
    (hop : op.kind ∈ operators) (hstop : stop op.kind)
    (hr : Reads operand n stop env us (r.operand env) (r.faults env)) :
    Advances rule operand operators n stop env (ts ++ op :: us) (.binary op l r) := by
  intro x rest sink notes hx hn
  rw [List.append_assoc, List.cons_append] at hn ⊢
  obtain ⟨m, hm, hloop⟩ := hl op (us ++ x :: rest) sink notes hstop hn
  simp only [List.length_append, List.length_cons] at hm hn
  obtain ⟨m, rfl⟩ : ∃ k, m = k + 1 := ⟨m - 1, by omega⟩
  refine ⟨m, by simp only [List.length_cons]; omega, ?_⟩
  have hbody : joined operand (l.operand env) .recovering
        (facing (op :: (us ++ x :: rest)) env (sink ++ l.faults env) notes) =
      (.value ((Expr.binary op l r).operand env),
        facing (x :: rest) env (sink ++ (Expr.binary op l r).faults env) notes) := by
    unfold joined
    have hfuel : (us ++ x :: rest).length ≤ n := by
      simp only [List.length_append, List.length_cons]
      omega
    rw [bind_of_value (advance_facing (by simp)), bind_of_value (hr x rest _ notes hx hfuel),
      combine_calm rfl, recordAll_facing]
    simp only [Expr.faults, List.append_assoc]
    rfl
  rw [hloop, iterate_facing_of_test _ (by simpa using hop), bind_of_value hbody]

/-- In front of a token that is no operator the loop ends. -/
theorem Advances.reads {stop' : Kind → Prop} (h : Advances rule operand operators n stop env ts e)
    (hstop : ∀ kind, stop' kind → stop kind ∧ kind ∉ operators) :
    Reads rule n stop' env ts (e.operand env) (e.faults env) := by
  intro x rest sink notes hx hn
  obtain ⟨hx, hop⟩ := hstop x.kind hx
  obtain ⟨m, hm, hloop⟩ := h x rest sink notes hx hn
  rw [hloop]
  apply iterate_facing_of_not_test
  · simp only [List.length_cons] at hm
    omega
  · simpa using hop

end

/-! ## Designators -/

/-- Several expressions have the faults of each, in order. -/
theorem Expr.faultsAll_eq_flatMap (env : Env) (es : List Expr) :
    Expr.faultsAll env es = es.flatMap (Expr.faults env) := by
  induction es with
  | nil => rw [Expr.faultsAll, List.flatMap_nil]
  | cons e es ih => rw [Expr.faultsAll, List.flatMap_cons, ih]

section

variable {nested : GrammarRule Operand} {n : Nat} {env : Env} {name : Token Kind}
  {symbol? : Option (Symbol Kind Ty)}

/-- A name that no index list follows. -/
theorem designator_name {x : Token Kind} (hx : x.kind ≠ .leftBracket) (rest : List (Token Kind))
    (sink : Faults) (notes : List (Symbol Kind Ty)) :
    designator nested name symbol? .recovering (facing (x :: rest) env sink notes) =
      (.value (accessType symbol? false),
        facing (x :: rest) env (sink ++ accessFaults name symbol? []) notes) := by
  unfold designator
  rw [bind_of_value (accept_facing_of_ne hx), if_neg Bool.false_ne_true]
  exact unindexed_calm rfl name symbol?

/-- A name with an index list. -/
theorem designator_element {opening closing : Token Kind} {ts us : List (Token Kind)} {e : Expr}
    {es : List Expr} (hopening : opening.kind = .leftBracket)
    (hclosing : closing.kind = .rightBracket)
    (hfirst : Reads nested n Strength.full.Stops env ts (e.operand env) (e.faults env))
    (hmore : CommaRepeated (fun ts e =>
      Reads nested n Strength.full.Stops env ts (e.operand env) (e.faults env)) us es)
    (x : Token Kind) (rest : List (Token Kind)) (sink : Faults) (notes : List (Symbol Kind Ty))
    (hn : (ts ++ (us ++ closing :: x :: rest)).length ≤ n) :
    designator nested name symbol? .recovering
        (facing (opening :: (ts ++ (us ++ closing :: x :: rest))) env sink notes) =
      (.value (accessType symbol? true),
        facing (x :: rest) env (sink ++ (Expr.faultsAll env (e :: es) ++
          accessFaults name symbol? ((e :: es).map (Expr.operand env)))) notes) := by
  have hcomma : Strength.full.Stops .comma := by decide
  have hbracket : Strength.full.Stops closing.kind := by
    rw [hclosing]
    decide
  obtain ⟨hitem, hloop⟩ := commaList_reads hcomma hfirst hmore closing (x :: rest) sink notes
    hbracket (by simp [hclosing]) hn
  unfold designator
  rw [bind_of_value (accept_facing_of_eq hopening (by simp)), if_pos rfl, bind_of_value hitem,
    bind_of_value hloop, bind_of_value (mustBe_facing hclosing (by simp)),
    indexed_calm rfl _ _ (by simp), recordAll_facing, Expr.faultsAll_eq_flatMap, List.append_assoc]

end

/-! ## Derivations -/

/-- How the rule for a strength recognizes the tokens of a derivation, for factors that nest less
than `n` deep. -/
def Strength.Recognizes (n : Nat) (env : Env) : Strength → List (Token Kind) → Expr → Prop
  | factor, ts, e =>
    Reads (Simple.factor n) n factor.Stops env ts (e.operand env) (e.faults env)
  | term, ts, e =>
    Advances (Simple.term (Simple.factor n)) (Simple.factor n) factorOperators n factor.Stops env
      ts e
  | simple, ts, e =>
    Advances (simpleExpression (Simple.factor n)) (Simple.term (Simple.factor n)) termOperators n
      term.Stops env ts e
  | full, ts, e =>
    Reads (expressionOf (Simple.factor n)) n full.Stops env ts (e.operand env) (e.faults env)

section

variable {n : Nat} {env : Env} {ts us : List (Token Kind)} {e l r : Expr} {op : Token Kind}

/-- Once its loop has ended, a term has been read. -/
theorem Strength.Recognizes.term_reads (h : Strength.term.Recognizes n env ts e) :
    Reads (Simple.term (Simple.factor n)) n Strength.term.Stops env ts (e.operand env)
      (e.faults env) :=
  Advances.reads h fun _ hkind => hkind

/-- Once its loop has ended, a simple expression has been read. -/
theorem Strength.Recognizes.simple_reads (h : Strength.simple.Recognizes n env ts e) :
    Reads (simpleExpression (Simple.factor n)) n Strength.simple.Stops env ts (e.operand env)
      (e.faults env) :=
  Advances.reads h fun _ hkind => hkind

/-! ### Factors -/

/-- Where nothing may be to come there is nothing to read. -/
theorem reads_zero {α : Type} {rule : GrammarRule α} {stop : Kind → Prop} {a : α}
    {faults : Faults} : Reads rule 0 stop env ts a faults := by
  intro x rest sink notes _ hn
  simp at hn

/-- A name alone is read as a designator without indices. -/
theorem recognizes_name {name : Token Kind} (h : name.kind = .ident) :
    Strength.factor.Recognizes (n + 1) env [name] (.designator name []) := by
  intro x rest sink notes hx hn
  rw [List.singleton_append, factor_of_ident h, bind_of_value (advance_facing (by simp)),
    bind_of_value (resolve_facing name), bind_of_value (designator_name hx _ _ _), pure_apply]
  simp only [Expr.faults, Expr.faultsAll, List.append_nil, List.map_nil, List.append_assoc]
  rfl

/-- A name with indices is read as a designator with these. -/
theorem recognizes_element {name opening closing : Token Kind} {es : List Expr}
    (h : name.kind = .ident) (hopening : opening.kind = .leftBracket)
    (hclosing : closing.kind = .rightBracket) (hfirst : Strength.full.Recognizes n env ts e)
    (hmore : CommaRepeated (Strength.full.Recognizes n env) us es) :
    Strength.factor.Recognizes (n + 1) env (name :: opening :: (ts ++ us ++ [closing]))
      (.designator name (e :: es)) := by
  intro x rest sink notes hx hn
  simp only [List.cons_append, List.append_assoc, List.nil_append, List.length_cons] at hn ⊢
  rw [factor_of_ident h, bind_of_value (advance_facing (by simp)),
    bind_of_value (resolve_facing name),
    bind_of_value (designator_element hopening hclosing hfirst hmore x rest _ _ (by omega)),
    pure_apply]
  simp only [Expr.faults, List.append_assoc]
  rfl

/-- An integer literal is read as a factor. -/
theorem recognizes_integer {t : Token Kind} (h : t.kind = .intLiteral) :
    Strength.factor.Recognizes (n + 1) env [t] (.integer t) := by
  intro x rest sink notes _ _
  rw [List.singleton_append, factor_of_intLiteral h, bind_of_value (advance_facing (by simp)),
    bind_of_value (intValue_calm rfl t), pure_apply, recordAll_facing]
  rfl

/-- A real literal is read as a factor. -/
theorem recognizes_real {t : Token Kind} (h : t.kind = .realLiteral) :
    Strength.factor.Recognizes (n + 1) env [t] (.real t) := by
  intro x rest sink notes _ _
  rw [List.singleton_append, factor_of_realLiteral h, bind_of_value (advance_facing (by simp)),
    pure_apply, Expr.faults, List.append_nil]
  rfl

/-- A truth value is read as a factor. -/
theorem recognizes_boolean {t : Token Kind} (h : t.kind = .kwTrue ∨ t.kind = .kwFalse) :
    Strength.factor.Recognizes (n + 1) env [t] (.boolean t) := by
  intro x rest sink notes _ _
  rw [List.singleton_append, factor_of_boolean h, bind_of_value (advance_facing (by simp)),
    pure_apply, Expr.faults, List.append_nil]
  rfl

/-- A factor behind `NOT` is read with it. -/
theorem recognizes_complement (h : op.kind = .kwNot) (he : Strength.factor.Recognizes n env ts e) :
    Strength.factor.Recognizes (n + 1) env (op :: ts) (.complement op e) := by
  intro x rest sink notes hx hn
  rw [List.cons_append, List.length_cons] at hn
  have hoperand := he x rest sink notes hx (by omega)
  rw [List.cons_append, factor_of_kwNot h, bind_of_value (advance_facing (by simp)),
    bind_of_value hoperand, bind_of_value (complement_calm rfl _), pure_apply, recordAll_facing,
    List.append_assoc]
  simp only [Expr.faults]
  rfl

/-- An expression in parentheses is read as it is. -/
theorem recognizes_parentheses {opening closing : Token Kind} (hopening : opening.kind = .leftParen)
    (hclosing : closing.kind = .rightParen) (he : Strength.full.Recognizes n env ts e) :
    Strength.factor.Recognizes (n + 1) env (opening :: (ts ++ [closing])) e := by
  intro x rest sink notes _ hn
  simp only [List.cons_append, List.append_assoc, List.nil_append, List.length_cons] at hn ⊢
  have hstop : Strength.full.Stops closing.kind := by
    rw [hclosing]
    decide
  have hinner := he closing (x :: rest) sink notes hstop (by omega)
  rw [factor_of_leftParen hopening, bind_of_value (advance_facing (by simp)),
    bind_of_value hinner, bind_of_value (mustBe_facing hclosing (by simp)), pure_apply]

/-! ### Signs and comparisons -/

/-- A term without a sign is read as it is. -/
theorem signedTerm_reads (h : Strength.term.Recognizes n env ts e)
    (hhead : ∃ t us, ts = t :: us ∧ t.kind ≠ .minus) :
    Reads (signedTerm (factor n)) n Strength.term.Stops env ts (e.operand env)
      (e.faults env) := by
  intro x rest sink notes hx hn
  have hterm := h.term_reads x rest sink notes hx hn
  obtain ⟨t, us, rfl, ht⟩ := hhead
  unfold signedTerm
  rw [List.cons_append] at hterm ⊢
  rw [bind_of_value (sees_facing _), if_neg (by simpa using ht)]
  exact hterm

/-- A term behind a sign is read with it. -/
theorem signedTerm_reads_negation (hop : op.kind = .minus)
    (h : Strength.term.Recognizes n env ts e) :
    Reads (signedTerm (factor n)) n Strength.term.Stops env (op :: ts)
      ((Expr.negation op e).operand env) ((Expr.negation op e).faults env) := by
  intro x rest sink notes hx hn
  rw [List.cons_append, List.length_cons] at hn
  have hterm := h.term_reads x rest sink notes hx (by omega)
  unfold signedTerm
  rw [List.cons_append, bind_of_value (sees_facing _), if_pos (decide_eq_true hop),
    bind_of_value (advance_facing (by simp)), bind_of_value hterm,
    bind_of_value (negation_calm rfl op _), pure_apply, recordAll_facing, List.append_assoc]
  simp only [Expr.faults]
  rfl

/-- A simple expression is an expression in front of anything but a comparison. -/
theorem recognizes_ofSimple (h : Strength.simple.Recognizes n env ts e) :
    Strength.full.Recognizes n env ts e := by
  intro x rest sink notes hx hn
  have hleft := h.simple_reads x rest sink notes hx.1 hn
  unfold expressionOf
  rw [bind_of_value hleft, bind_of_value lookahead_facing, if_neg (by simp [hx.2]), pure_apply]

/-- Two simple expressions with a comparison between them are read as one. -/
theorem recognizes_comparison (hl : Strength.simple.Recognizes n env ts l)
    (hop : op.kind.isRelational = true) (hr : Strength.simple.Recognizes n env us r) :
    Strength.full.Recognizes n env (ts ++ op :: us) (.comparison op l r) := by
  intro x rest sink notes hx hn
  rw [List.append_assoc, List.cons_append] at hn ⊢
  have hleft := hl.simple_reads op (us ++ x :: rest) sink notes (stops_isRelational hop) hn
  simp only [List.length_append, List.length_cons] at hn
  have hright := hr.simple_reads x rest (sink ++ l.faults env) notes hx.1
    (by simp only [List.length_append, List.length_cons]; omega)
  unfold expressionOf
  rw [bind_of_value hleft, bind_of_value lookahead_facing, if_pos hop,
    bind_of_value (advance_facing (by simp)), bind_of_value hright,
    bind_of_value (relational_calm rfl op _ _), pure_apply, recordAll_facing]
  simp only [Expr.faults, List.append_assoc]
  rfl

end

mutual

/-- Every derivation of an expression is recognized by the rule for its strength. -/
theorem Expr.Derives.recognized : ∀ {strength : Strength} {ts : List (Token Kind)} {e : Expr},
    e.Derives strength ts → ∀ (n : Nat) (env : Env), strength.Recognizes n env ts e
  | _, _, _, .name _, 0, _ => reads_zero
  | _, _, _, .name h, _ + 1, _ => recognizes_name h
  | _, _, _, .element _ _ _ _ _, 0, _ => reads_zero
  | _, _, _, .element h hopening hfirst hmore hclosing, n + 1, env =>
    recognizes_element h hopening hclosing (hfirst.recognized n env)
      (commaRepeated_recognized hmore n env)
  | _, _, _, .integer _, 0, _ => reads_zero
  | _, _, _, .integer h, _ + 1, _ => recognizes_integer h
  | _, _, _, .real _, 0, _ => reads_zero
  | _, _, _, .real h, _ + 1, _ => recognizes_real h
  | _, _, _, .boolean _, 0, _ => reads_zero
  | _, _, _, .boolean h, _ + 1, _ => recognizes_boolean h
  | _, _, _, .complement _ _, 0, _ => reads_zero
  | _, _, _, .complement h he, n + 1, env => recognizes_complement h (he.recognized n env)
  | _, _, _, .parentheses _ _ _, 0, _ => reads_zero
  | _, _, _, .parentheses hopening he hclosing, n + 1, env =>
    recognizes_parentheses hopening hclosing (he.recognized n env)
  | _, _, _, .ofFactor h, n, env => Advances.start (h.recognized n env)
  | _, _, _, .product hl hop hr, n, env =>
    Advances.next (hl.recognized n env) hop (stops_factorOperators hop) (hr.recognized n env)
  | _, _, _, .ofTerm h, n, env =>
    Advances.start (signedTerm_reads (h.recognized n env) h.head_ne_minus)
  | _, _, _, .negation hop h, n, env =>
    Advances.start (signedTerm_reads_negation hop (h.recognized n env))
  | _, _, _, .sum hl hop hr, n, env =>
    Advances.next (hl.recognized n env) hop (stops_termOperators hop)
      (hr.recognized n env).term_reads
  | _, _, _, .ofSimple h, n, env => recognizes_ofSimple (h.recognized n env)
  | _, _, _, .comparison hl hop hr, n, env =>
    recognizes_comparison (hl.recognized n env) hop (hr.recognized n env)

/-- Expressions behind commas are recognized one by one. -/
theorem commaRepeated_recognized : ∀ {us : List (Token Kind)} {es : List Expr},
    CommaRepeated (Expr.Derives .full) us es → ∀ (n : Nat) (env : Env),
      CommaRepeated (Strength.full.Recognizes n env) us es
  | _, _, .nil, _, _ => .nil
  | _, _, .cons hcomma h hmore, n, env =>
    .cons hcomma (h.recognized n env) (commaRepeated_recognized hmore n env)

end

/-- An expression is read whatever follows it, as long as that does not continue it. -/
theorem expression_reads {ts : List (Token Kind)} {e : Expr} (h : e.Derives .full ts) (n : Nat)
    (env : Env) :
    Reads expression n Strength.full.Stops env ts (e.operand env) (e.faults env) := by
  intro x rest sink notes hx _
  have hread := h.recognized (ts ++ x :: rest).length env x rest sink notes hx (Nat.le_refl _)
  obtain ⟨y, ys, hcons⟩ : ∃ y ys, ts ++ x :: rest = y :: ys :=
    List.exists_cons_of_ne_nil (by simp)
  rw [hcons] at hread ⊢
  unfold expression
  rw [withFuel_facing]
  exact hread

end SinglePass.Simple
