import SinglePass.Proofs.Recognition.Declarations

/-!
# Derivable statements and programs are recognized

The rule for statements, in front of any token that cannot continue an expression, consumes the
tokens of a derivation, leaves the scopes as they were, records the faults that the walk of the
statement lists and notes down the symbols that its blocks declare (`Stmt.Derives.performs`).  The
rule for programs does the same for all tokens of a sentence up to the one that ends the source
(`Sentence.recognized`).
-/

namespace SinglePass.Simple

open Recognizer

variable {x : Token Kind} {ts us rest : List (Token Kind)} {env : Env} {sink : Faults}
  {notes : List (Symbol Kind Ty)}

/-- The rule performs the tokens `ts`: with at most `n` tokens to come and in front of a token that
`stop` allows, it consumes them, records the faults, notes down the symbols, and leaves the scopes
as they were. -/
def Performs (rule : GrammarRule Unit) (n : Nat) (stop : Kind → Prop) (env : Env)
    (ts : List (Token Kind)) (faults : Faults) (declared : List (Symbol Kind Ty)) : Prop :=
  ∀ (x : Token Kind) (rest : List (Token Kind)) (sink : Faults) (notes : List (Symbol Kind Ty)),
    stop x.kind → (ts ++ x :: rest).length ≤ n →
      rule .recovering (facing (ts ++ x :: rest) env sink notes) =
        (.value (), facing (x :: rest) env (sink ++ faults) (notes ++ declared))

/-! ## What begins and what ends a statement -/

/-- A designator begins with its name. -/
theorem Designates.head {name : Token Kind} {indices : List Expr} (h : Designates ts name indices) :
    ∃ us, ts = name :: us ∧ name.kind = .ident := by
  cases h with
  | name hname => exact ⟨[], rfl, hname⟩
  | element hname _ _ _ => exact ⟨_, rfl, hname⟩

/-- A statement begins with a name or with a keyword of its own. -/
theorem Stmt.Derives.head_mem {s : Stmt} (h : s.Derives ts) :
    ∃ t us, ts = t :: us ∧ t.kind ∈ statementStarts := by
  cases h with
  | assign hname _ _ =>
    obtain ⟨us, rfl, hkind⟩ := hname.head
    exact ⟨_, _, rfl, by simp [hkind, statementStarts]⟩
  | branch hkind _ _ _ _ => exact ⟨_, _, rfl, by simp [hkind, statementStarts]⟩
  | branchElse hkind _ _ _ _ _ _ => exact ⟨_, _, rfl, by simp [hkind, statementStarts]⟩
  | loop hkind _ _ _ _ => exact ⟨_, _, rfl, by simp [hkind, statementStarts]⟩
  | read hkind _ => exact ⟨_, _, rfl, by simp [hkind, statementStarts]⟩
  | write hkind _ => exact ⟨_, _, rfl, by simp [hkind, statementStarts]⟩
  | block hkind _ _ _ _ => exact ⟨_, _, rfl, by simp [hkind, statementStarts]⟩

/-- The kinds of tokens in front of which a list of statements is complete. -/
def statementsEnds : List Kind := [.kwEnd, .kwElse, .endOfFile]

/-- An expression is complete in front of a statement, and a list of statements is not. -/
theorem stops_statementStarts {kind : Kind} (h : kind ∈ statementStarts) :
    Strength.full.Stops kind ∧ kind ∉ statementsEnds := by
  revert h
  cases kind <;> intro h <;>
    first
    | exact absurd h (by decide)
    | exact ⟨by decide, by decide⟩

/-- An expression is complete where a list of statements is. -/
theorem stops_statementsEnds {kind : Kind} (h : kind ∈ statementsEnds) :
    Strength.full.Stops kind := by
  simp only [statementsEnds, List.mem_cons, List.not_mem_nil, or_false] at h
  rcases h with rfl | rfl | rfl
  · decide
  · decide
  · decide

/-! ## Lists of statements -/

section

variable {nested : GrammarRule Unit} {n : Nat} {ss : List Stmt}

/-- How a rule for nested statements has to recognize the tokens of a statement. -/
def PerformsStmt (nested : GrammarRule Unit) (n : Nat) (env : Env) (ts : List (Token Kind))
    (s : Stmt) : Prop :=
  (∃ t us, ts = t :: us ∧ t.kind ∈ statementStarts) ∧
    Performs nested n Strength.full.Stops env ts (s.faults env) s.declared

/-- The loop over statements performs one of them in each round. -/
theorem iterate_statements (h : Repeated (PerformsStmt nested n env) us ss)
    (hx : x.kind ∈ statementsEnds) (hn : (us ++ x :: rest).length ≤ n) (m : Nat)
    (hm : (us ++ x :: rest).length ≤ m) (sink : Faults) (notes : List (Symbol Kind Ty)) :
    iterate (fun kind => kind ∉ statementsEnds) (fun _ => nested) m () .recovering
        (facing (us ++ x :: rest) env sink notes) =
      (.value (), facing (x :: rest) env (sink ++ Stmt.faultsAll env ss)
        (notes ++ Stmt.declaredAll ss)) := by
  induction h generalizing m sink notes with
  | nil =>
    rw [Stmt.faultsAll, Stmt.declaredAll, List.append_nil, List.append_nil]
    apply iterate_facing_of_not_test
    · simp only [List.nil_append, List.length_cons] at hm
      omega
    · simpa using hx
  | @cons ts us s ss hs htail ih =>
    obtain ⟨⟨t, ts, rfl, ht⟩, hperform⟩ := hs
    simp only [List.cons_append, List.append_assoc, List.length_cons, List.length_append] at hn hm
    obtain ⟨m, rfl⟩ : ∃ k, m = k + 1 := ⟨m - 1, by omega⟩
    -- what comes next is the first token of another statement, or ends the list
    obtain ⟨y, ys, hnext, hy⟩ : ∃ y ys, us ++ x :: rest = y :: ys ∧ Strength.full.Stops y.kind := by
      cases htail with
      | nil => exact ⟨x, rest, rfl, stops_statementsEnds hx⟩
      | cons hnext _ =>
        obtain ⟨⟨y, ys, rfl, hy⟩, -⟩ := hnext
        exact ⟨y, _, rfl, (stops_statementStarts hy).1⟩
    have hlength : (t :: ts ++ y :: ys).length ≤ n := by
      rw [← hnext]
      simp only [List.cons_append, List.length_append, List.length_cons]
      omega
    have hbody := hperform y ys sink notes hy hlength
    rw [← hnext] at hbody
    rw [List.append_assoc]
    rw [List.cons_append] at hbody ⊢
    rw [iterate_facing_of_test _ (by simpa using (stops_statementStarts ht).2),
      bind_of_value hbody, ih (by simp only [List.length_append, List.length_cons]; omega) m
        (by simp only [List.length_append, List.length_cons]; omega),
      Stmt.faultsAll, Stmt.declaredAll]
    simp only [List.append_assoc]

/-- Statements in a row are performed if each of them is. -/
theorem statementsOf_performs (h : Repeated (PerformsStmt nested n env) us ss) :
    Performs (statementsOf nested) n (· ∈ statementsEnds) env us (Stmt.faultsAll env ss)
      (Stmt.declaredAll ss) := by
  intro x rest sink notes hx hn
  have hloop := iterate_statements h hx hn (us ++ x :: rest).length (Nat.le_refl _) sink notes
  obtain ⟨y, ys, hcons⟩ : ∃ y ys, us ++ x :: rest = y :: ys :=
    List.exists_cons_of_ne_nil (by simp)
  rw [hcons] at hloop ⊢
  exact (withFuel_facing fun n =>
    iterate (fun kind => kind ∉ statementsEnds) (fun _ => nested) n ()).trans hloop

/-! ## Statements -/

/-- A designator after its name. -/
theorem designator_facing {name : Token Kind} {indices : List Expr}
    (h : Designates (name :: ts) name indices) (hx : x.kind ≠ .leftBracket)
    (symbol? : Option (Symbol Kind Ty)) :
    designator expression name symbol? .recovering (facing (ts ++ x :: rest) env sink notes) =
      (.value (accessType symbol? (!indices.isEmpty)), facing (x :: rest) env
        (sink ++ (Expr.faultsAll env indices ++
          accessFaults name symbol? (indices.map (Expr.operand env)))) notes) := by
  cases h with
  | name _ => exact designator_name hx rest sink notes
  | @element _ opening closing ts _ _ hopening hindices hclosing =>
    obtain @⟨ts, us, e, es, hfirst, hmore⟩ := hindices
    rw [List.cons_append, List.append_assoc, List.append_assoc, List.singleton_append]
    exact designator_element hopening hclosing (expression_reads hfirst _ env)
      (hmore.mono fun _ _ h => expression_reads h _ env) x rest sink notes (Nat.le_refl _)

/-- An assignment is performed with the faults of its two sides. -/
theorem assignment_performs {assign name : Token Kind} {indices : List Expr} {value : Expr}
    (hname : Designates ts name indices) (hassign : assign.kind = .assign)
    (hvalue : value.Derives .full us) :
    Performs assignment n Strength.full.Stops env (ts ++ assign :: us)
      (Stmt.faults env (.assign name indices value)) [] := by
  intro x rest sink notes hx hn
  rw [List.append_assoc, List.cons_append, List.append_nil]
  have hstop : assign.kind ≠ .leftBracket := by simp [hassign]
  obtain ⟨ts, rfl, -⟩ := hname.head
  have hread := expression_reads hvalue (us ++ x :: rest).length env x rest
  unfold assignment
  rw [List.cons_append, bind_of_value (advance_facing (by simp)),
    bind_of_value (resolve_facing name), bind_of_value (checkTarget_calm rfl _ _),
    recordAll_facing, bind_of_value (designator_facing hname hstop _),
    bind_of_value (mustBe_facing hassign (by simp)),
    bind_of_value (hread _ notes hx (Nat.le_refl _)), assignable_calm rfl, recordAll_facing]
  simp only [Stmt.faults, List.append_assoc]
  rfl

/-- What reads is performed with the faults of its name. -/
theorem readStatement_performs {readWord name : Token Kind} (hname : name.kind = .ident) :
    Performs readStatement n anyKind env [readWord, name] (Stmt.faults env (.read name)) [] := by
  intro x rest sink notes _ hn
  unfold readStatement
  rw [List.cons_append, List.singleton_append, List.append_nil,
    bind_of_value (advance_facing (by simp)), bind_of_value (mustBe_facing hname (by simp))]
  refine (bind_of_value (resolve_facing name) _).trans ?_
  rw [bind_of_value (checkTarget_calm rfl _ _), recordAll_facing,
    bind_of_value (unindexed_calm rfl _ _), recordAll_facing, pure_apply]
  simp only [Stmt.faults, List.append_assoc]

/-- What writes is performed with the faults of its value. -/
theorem writeStatement_performs {writeWord : Token Kind} {value : Expr}
    (hvalue : value.Derives .full ts) :
    Performs writeStatement n Strength.full.Stops env (writeWord :: ts)
      (Stmt.faults env (.write value)) [] := by
  intro x rest sink notes hx hn
  have hread := expression_reads hvalue (ts ++ x :: rest).length env x rest sink notes hx
    (Nat.le_refl _)
  unfold writeStatement
  rw [List.cons_append, List.append_nil, bind_of_value (advance_facing (by simp)),
    bind_of_value hread, pure_apply]
  simp only [Stmt.faults]

/-! ### Statements with parts -/

/-- The rule for the condition of `IF` and `WHILE`. -/
theorem condition_facing (test : Expr) :
    condition (test.operand env) .recovering (facing ts env sink notes) =
      (.value (), facing ts env (sink ++ conflictFaults test.first (test.type env) .boolean)
        notes) :=
  condition_calm rfl (test.operand env)

/-- `ELSE` with its statements. -/
theorem elsePart_facing {elseWord : Token Kind} (helse : elseWord.kind = .kwElse)
    (h : Repeated (PerformsStmt nested n env) us ss) (hx : x.kind ∈ statementsEnds)
    (hn : (us ++ x :: rest).length ≤ n) :
    elsePart nested .recovering (facing (elseWord :: (us ++ x :: rest)) env sink notes) =
      (.value (), facing (x :: rest) env (sink ++ Stmt.faultsAll env ss)
        (notes ++ Stmt.declaredAll ss)) := by
  unfold elsePart
  rw [bind_of_value (accept_facing_of_eq helse (by simp)), if_pos rfl]
  exact statementsOf_performs h x rest sink notes hx hn

/-- Without `ELSE` there is nothing to perform. -/
theorem elsePart_facing_of_ne (hx : x.kind ≠ .kwElse) :
    elsePart nested .recovering (facing (x :: rest) env sink notes) =
      (.value (), facing (x :: rest) env sink notes) := by
  unfold elsePart
  rw [bind_of_value (accept_facing_of_ne hx), if_neg Bool.false_ne_true, pure_apply]

section

variable {test : Expr} {thenPart body : List Stmt} {endWord : Token Kind}

/-- A choice without an alternative is performed with the faults of its condition and its body. -/
theorem ifStatement_performs {ifWord thenWord : Token Kind} (htest : test.Derives .full ts)
    (hthen : thenWord.kind = .kwThen) (hbody : Repeated (PerformsStmt nested n env) us body)
    (hend : endWord.kind = .kwEnd) :
    Performs (ifStatement nested) (n + 1) anyKind env
      (ifWord :: (ts ++ thenWord :: (us ++ [endWord]))) (Stmt.faults env (.branch test body []))
      (Stmt.declared (.branch test body [])) := by
  intro x rest sink notes _ hn
  simp only [List.cons_append, List.append_assoc, List.nil_append, List.length_cons,
    List.length_append] at hn ⊢
  have hread := expression_reads htest (ts ++ thenWord :: (us ++ endWord :: x :: rest)).length env
    thenWord (us ++ endWord :: x :: rest) sink notes (by rw [hthen]; decide) (Nat.le_refl _)
  have hstatements := statementsOf_performs hbody endWord (x :: rest)
    (sink ++ test.faults env ++ conflictFaults test.first (test.type env) .boolean) notes
    (by rw [hend]; decide) (by simp only [List.length_append, List.length_cons]; omega)
  unfold ifStatement
  rw [bind_of_value (advance_facing (by simp)), bind_of_value hread,
    bind_of_value (condition_facing test),
    bind_of_value (mustBe_facing hthen (by simp)), bind_of_value hstatements,
    bind_of_value (elsePart_facing_of_ne (by simp [hend])),
    bind_of_value (mustBe_facing hend (by simp)), pure_apply]
  simp only [Stmt.faults, Stmt.faultsAll, Stmt.declared, Stmt.declaredAll, List.append_assoc,
    List.append_nil]

/-- A choice with an alternative is performed with the faults of all its parts. -/
theorem ifStatement_performs_else {ifWord thenWord elseWord : Token Kind}
    {vs : List (Token Kind)} {elsePart : List Stmt} (htest : test.Derives .full ts)
    (hthen : thenWord.kind = .kwThen) (hbody : Repeated (PerformsStmt nested n env) us thenPart)
    (helse : elseWord.kind = .kwElse) (hother : Repeated (PerformsStmt nested n env) vs elsePart)
    (hend : endWord.kind = .kwEnd) :
    Performs (ifStatement nested) (n + 1) anyKind env
      (ifWord :: (ts ++ thenWord :: (us ++ elseWord :: (vs ++ [endWord]))))
      (Stmt.faults env (.branch test thenPart elsePart))
      (Stmt.declared (.branch test thenPart elsePart)) := by
  intro x rest sink notes _ hn
  simp only [List.cons_append, List.append_assoc, List.nil_append, List.length_cons,
    List.length_append] at hn ⊢
  have hread := expression_reads htest
    (ts ++ thenWord :: (us ++ elseWord :: (vs ++ endWord :: x :: rest))).length env thenWord
    (us ++ elseWord :: (vs ++ endWord :: x :: rest)) sink notes (by rw [hthen]; decide)
    (Nat.le_refl _)
  have hstatements := statementsOf_performs hbody elseWord (vs ++ endWord :: x :: rest)
    (sink ++ test.faults env ++ conflictFaults test.first (test.type env) .boolean) notes
    (by rw [helse]; decide) (by simp only [List.length_append, List.length_cons]; omega)
  unfold ifStatement
  rw [bind_of_value (advance_facing (by simp)), bind_of_value hread,
    bind_of_value (condition_facing test),
    bind_of_value (mustBe_facing hthen (by simp)), bind_of_value hstatements,
    bind_of_value (elsePart_facing helse hother (by rw [hend]; decide)
      (by simp only [List.length_append, List.length_cons]; omega)),
    bind_of_value (mustBe_facing hend (by simp)), pure_apply]
  simp only [Stmt.faults, Stmt.declared, List.append_assoc]

/-- A loop is performed with the faults of its condition and its body. -/
theorem whileStatement_performs {whileWord doWord : Token Kind} (htest : test.Derives .full ts)
    (hdo : doWord.kind = .kwDo) (hbody : Repeated (PerformsStmt nested n env) us body)
    (hend : endWord.kind = .kwEnd) :
    Performs (whileStatement nested) (n + 1) anyKind env
      (whileWord :: (ts ++ doWord :: (us ++ [endWord]))) (Stmt.faults env (.loop test body))
      (Stmt.declared (.loop test body)) := by
  intro x rest sink notes _ hn
  simp only [List.cons_append, List.append_assoc, List.nil_append, List.length_cons,
    List.length_append] at hn ⊢
  have hread := expression_reads htest (ts ++ doWord :: (us ++ endWord :: x :: rest)).length env
    doWord (us ++ endWord :: x :: rest) sink notes (by rw [hdo]; decide) (Nat.le_refl _)
  have hstatements := statementsOf_performs hbody endWord (x :: rest)
    (sink ++ test.faults env ++ conflictFaults test.first (test.type env) .boolean) notes
    (by rw [hend]; decide) (by simp only [List.length_append, List.length_cons]; omega)
  unfold whileStatement
  rw [bind_of_value (advance_facing (by simp)), bind_of_value hread,
    bind_of_value (condition_facing test),
    bind_of_value (mustBe_facing hdo (by simp)), bind_of_value hstatements,
    bind_of_value (mustBe_facing hend (by simp)), pure_apply]
  simp only [Stmt.faults, Stmt.declared, List.append_assoc]

/-- A block is performed with its declarations in a scope of their own. -/
theorem block_performs {withWord inWord : Token Kind} {decls : List Decl}
    (hdecls : CommaList Decl.Derives ts decls) (hin : inWord.kind = .kwIn)
    (hbody : Repeated (PerformsStmt nested n (Decl.accepted [] decls :: env)) us body)
    (hend : endWord.kind = .kwEnd) :
    Performs (block nested) (n + 1) anyKind env
      (withWord :: (ts ++ inWord :: (us ++ [endWord]))) (Stmt.faults env (.block decls body))
      (Stmt.declared (.block decls body)) := by
  intro x rest sink notes _ hn
  simp only [List.cons_append, List.append_assoc, List.nil_append, List.length_cons,
    List.length_append] at hn ⊢
  have hcomma : inWord.kind ≠ .comma := by simp [hin]
  have hstatements := statementsOf_performs hbody endWord (x :: rest)
    (sink ++ Decl.faultsAll [] decls) (notes ++ Decl.accepted [] decls) (by rw [hend]; decide)
    (by simp only [List.length_append, List.length_cons]; omega)
  unfold block
  rw [bind_of_value (advance_facing (by simp)), bind_of_value openScope_facing,
    bind_of_value (declarations_facing hdecls hcomma), List.nil_append,
    bind_of_value (mustBe_facing hin (by simp)), bind_of_value hstatements,
    bind_of_value (mustBe_facing hend (by simp)), bind_of_value (closeScope_facing _), pure_apply]
  simp only [Stmt.faults, Stmt.declared, List.append_assoc]

end

end

/-! ## Derivations -/

/-- A rule that is good for every kind of token behind is good for some. -/
theorem Performs.anywhere {rule : GrammarRule Unit} {n : Nat} {stop : Kind → Prop}
    {faults : Faults} {declared : List (Symbol Kind Ty)}
    (h : Performs rule n anyKind env ts faults declared) :
    Performs rule n stop env ts faults declared := by
  intro x rest sink notes _ hn
  exact h x rest sink notes trivial hn

/-- A statement is performed if the alternative that its first token selects performs it. -/
theorem performs_statement {alternative : GrammarRule Unit} {n : Nat} {t : Token Kind}
    {faults : Faults} {declared : List (Symbol Kind Ty)}
    (hselect : ∀ s : State Kind Ty (Symbol Kind Ty), s.lookahead.kind = t.kind →
      statement (n + 1) .recovering s = alternative .recovering s)
    (h : Performs alternative (n + 1) Strength.full.Stops env (t :: ts) faults declared) :
    Performs (statement (n + 1)) (n + 1) Strength.full.Stops env (t :: ts) faults declared := by
  intro x rest sink notes hx hn
  rw [← h x rest sink notes hx hn]
  exact hselect _ rfl

/-- Without a token to come there is nothing to perform. -/
theorem performs_zero {rule : GrammarRule Unit} {stop : Kind → Prop} {faults : Faults}
    {declared : List (Symbol Kind Ty)} : Performs rule 0 stop env ts faults declared := by
  intro x rest sink notes _ hn
  simp at hn

mutual

/-- Every derivation of a statement is performed by the rule for statements. -/
theorem Stmt.Derives.performs : ∀ {ts : List (Token Kind)} {s : Stmt}, s.Derives ts →
    ∀ (n : Nat) (env : Env),
      Performs (statement n) n Strength.full.Stops env ts (s.faults env) s.declared
  | _, _, _, 0, _ => performs_zero
  | _, _, .assign hname hassign hvalue, n + 1, env => by
    obtain ⟨us, heq, hkind⟩ := hname.head
    have hperform := @assignment_performs _ _ env (n + 1) _ _ _ _ hname hassign hvalue
    rw [heq] at hperform ⊢
    exact performs_statement (fun s hs => statement_of_ident (hs.trans hkind)) hperform
  | _, _, .branch hif htest hthen hbody hend, n + 1, env =>
    performs_statement (fun s hs => statement_of_kwIf (hs.trans hif))
      (ifStatement_performs htest hthen (repeated_performs hbody n env) hend).anywhere
  | _, _, .branchElse hif htest hthen hbody helse hother hend, n + 1, env =>
    performs_statement (fun s hs => statement_of_kwIf (hs.trans hif))
      (ifStatement_performs_else htest hthen (repeated_performs hbody n env) helse
        (repeated_performs hother n env) hend).anywhere
  | _, _, .loop hwhile htest hdo hbody hend, n + 1, env =>
    performs_statement (fun s hs => statement_of_kwWhile (hs.trans hwhile))
      (whileStatement_performs htest hdo (repeated_performs hbody n env) hend).anywhere
  | _, _, .read hread hname, n + 1, env =>
    performs_statement (fun s hs => statement_of_kwRead (hs.trans hread))
      (readStatement_performs hname).anywhere
  | _, _, .write hwrite hvalue, n + 1, env =>
    performs_statement (fun s hs => statement_of_kwWrite (hs.trans hwrite))
      (writeStatement_performs hvalue)
  | _, _, .block hwith hdecls hin hbody hend, n + 1, env =>
    performs_statement (fun s hs => statement_of_kwWith (hs.trans hwith))
      (block_performs hdecls hin (repeated_performs hbody n _) hend).anywhere

/-- Statements in a row are performed one by one. -/
theorem repeated_performs : ∀ {us : List (Token Kind)} {ss : List Stmt},
    Repeated Stmt.Derives us ss → ∀ (n : Nat) (env : Env),
      Repeated (PerformsStmt (statement n) n env) us ss
  | _, _, .nil, _, _ => .nil
  | _, _, .cons h hmore, n, env =>
    .cons ⟨h.head_mem, h.performs n env⟩ (repeated_performs hmore n env)

end

/-! ## Programs -/

/-- Declarations in front of a program are performed, or there are none. -/
theorem optionalDeclarations_facing {decls : List Decl} (h : OptionalDecls ts decls)
    (hx : x.kind = .kwIn) :
    optionalDeclarations .recovering (facing (ts ++ x :: rest) ([] :: env) sink notes) =
      (.value (), facing (x :: rest) (Decl.accepted [] decls :: env)
        (sink ++ Decl.faultsAll [] decls) (notes ++ Decl.accepted [] decls)) := by
  unfold optionalDeclarations
  cases h with
  | none =>
    have hwith : x.kind ≠ .kwWith := by simp [hx]
    rw [List.nil_append, bind_of_value (accept_facing_of_ne hwith), if_neg Bool.false_ne_true,
      pure_apply, Decl.faultsAll, Decl.accepted, List.append_nil, List.append_nil]
  | some hwith hdecls =>
    have hcomma : x.kind ≠ .comma := by simp [hx]
    rw [List.cons_append, bind_of_value (accept_facing_of_eq hwith (by simp)), if_pos rfl,
      declarations_facing hdecls hcomma, List.nil_append]

/-- Statements in front of their end are performed without a bound on how deep they nest. -/
theorem statements_facing {ss : List Stmt} (h : Repeated Stmt.Derives us ss)
    (hx : x.kind ∈ statementsEnds) :
    statements .recovering (facing (us ++ x :: rest) env sink notes) =
      (.value (), facing (x :: rest) env (sink ++ Stmt.faultsAll env ss)
        (notes ++ Stmt.declaredAll ss)) := by
  have hperform := statementsOf_performs (repeated_performs h (us ++ x :: rest).length env) x rest
    sink notes hx (Nat.le_refl _)
  obtain ⟨y, ys, hcons⟩ : ∃ y ys, us ++ x :: rest = y :: ys :=
    List.exists_cons_of_ne_nil (by simp)
  unfold statements
  rw [hcons] at hperform ⊢
  rw [withFuel_facing]
  exact hperform

/-- All tokens of a sentence are recognized, up to the one that ends the source. -/
theorem Sentence.recognized {tokens : List (Token Kind)} {p : Program} (h : Sentence tokens p) :
    ∃ final, program.toEnd .recovering (facing tokens [] [] []) =
      (.value (), facing [final] [] p.faults p.declared) := by
  obtain @⟨ts, final, p, hp, hfinal⟩ := h
  obtain @⟨programWord, name, inWord, endWord, ts, us, decls, body, hprogram, hname, hdecls, hin,
    hbody, hend⟩ := hp
  refine ⟨final, ?_⟩
  have hstart : program .recovering
      (facing (programWord :: name :: (ts ++ inWord :: (us ++ endWord :: [final]))) [] [] []) =
        (.value (), facing [final] []
          (Decl.faultsAll [] decls ++ Stmt.faultsAll [Decl.accepted [] decls] body)
          (Decl.accepted [] decls ++ Stmt.declaredAll body)) := by
    have hstatements : endWord.kind ∈ statementsEnds := by
      rw [hend]
      decide
    unfold program
    rw [bind_of_value (mustBe_facing hprogram (by simp)),
      bind_of_value (mustBe_facing hname (by simp)), bind_of_value openScope_facing,
      bind_of_value (optionalDeclarations_facing hdecls hin),
      bind_of_value (mustBe_facing hin (by simp)),
      bind_of_value (statements_facing hbody hstatements),
      bind_of_value (mustBe_facing hend (by simp)), bind_of_value (closeScope_facing _),
      pure_apply, List.nil_append, List.nil_append]
  simp only [List.cons_append, List.append_assoc, List.nil_append]
  unfold toEnd
  rw [bind_of_value hstart, mustEnd_facing hfinal]
  rfl

end SinglePass.Simple
