import SinglePass.Proofs.ParseThenCheck
import SinglePass.Proofs.Settling.Statements

/-!
# The first unexpected token

A recovering run of Simple meets its first unexpected token exactly where the source leaves the
grammar: the tokens before it begin a program, those up to and including it begin none, and a run
that meets no unexpected token has read a program (`first_unexpected_is_misplaced`).  When the
token is reported the run stands at it: the scanner's faults recorded so far are those of the tokens
up to this one, and whatever comes behind it, the first unexpected token stays where it is.

`program_settles` gives for every source a place where the start rule gets through or stops.  That
the tokens up to a place where it stops begin no program follows from the fact that the same run
would stop there on that program too, while on programs it finds nothing but faults of meaning.
-/

namespace SinglePass.Simple

open Recognizer

/-- The kinds of the tokens of a source, up to its end. -/
def kinds (source : Source) : List Kind := (source.tokens classifier).map Token.kind

/-- The kind at index `k` is the first that no program goes on with: those before it begin a program
and something is missing there, those up to it begin none. -/
structure Misplaced (kinds : List Kind) (k : Nat) : Prop where
  begins : ∃ sentence, IsSentence sentence ∧ kinds.take k <+: sentence ∧ kinds.take k ≠ sentence
  ends : ∀ sentence, IsSentence sentence → ¬ kinds.take (k + 1) <+: sentence

/-! ## Runs on given kinds -/

/-- A run on tokens without faults. -/
theorem ready_facing {tokens : List (Token Kind)} (h : Terminated (tokens.map Token.kind)) :
    (facing tokens [] [] []).Ready ∧ (facing tokens [] [] []).input = tokens := by
  have hinput : (facing tokens [] [] []).input = tokens := by
    cases tokens with
    | nil =>
      obtain ⟨before, heq, -⟩ := h
      simp at heq
    | cons t ts =>
      show t :: (ts.map fun t => (⟨t, []⟩ : Scanned Kind Ty)).map Scanned.token = t :: ts
      rw [List.map_map]
      exact congrArg (t :: ·) (List.map_id ts)
  refine ⟨⟨rfl, ?_, ?_⟩, hinput⟩
  · intro scanned hmem d hd
    obtain ⟨t, -, rfl⟩ := List.mem_map.1 hmem
    simp at hd
  · unfold State.kinds
    rw [hinput]
    exact h

/-- A sentence ends with the token that ends the source. -/
theorem Sentence.terminated {tokens : List (Token Kind)} {p : Program} (h : Sentence tokens p) :
    Terminated (tokens.map Token.kind) := by
  obtain ⟨hp, hfinal⟩ := h
  refine ⟨_, by rw [List.map_append, List.map_singleton, hfinal]; rfl, ?_⟩
  intro hmem
  obtain ⟨t, ht, hkind⟩ := List.mem_map.1 hmem
  have hordinary := hp.ordinary t ht
  rw [hkind] at hordinary
  exact absurd hordinary (by decide)

/-- No run stops on the tokens of a program. -/
theorem Sentence.not_stops {tokens : List (Token Kind)} {p : Program} (h : Sentence tokens p)
    (k : Nat) : ¬ Stops program.toEnd (facing tokens [] [] []) k := by
  intro hstops
  obtain ⟨final, hrun⟩ := h.recognized
  obtain ⟨token, expected, -, hfind, -⟩ := hstops.first_unexpected (by simp [facing])
  rw [hrun] at hfind
  have hmem : .unexpected token expected ∈ p.faults := List.mem_of_find?_eq_some hfind
  exact absurd (p.faults_ofMeaning _ hmem) (by simp [Diagnostic.isSemantic])

/-- Every run on the kinds reads a program, or all of them stop where the kinds leave the
grammar. -/
inductive Judged (ks : List Kind) : Prop
  | reads (run : ∀ s : State Kind Ty (Symbol Kind Ty), s.Ready → s.kinds = ks →
      (∃ k, Passes program.toEnd s k) ∧ ∃ p, Sentence s.input p)
  | stops (k : Nat) (misplaced : Misplaced ks k)
      (run : ∀ s : State Kind Ty (Symbol Kind Ty), s.Ready → ks.take (k + 1) <+: s.kinds →
        Stops program.toEnd s k)

/-- Kinds are judged if every run stops at one of them, behind what begins a sentence. -/
theorem judged_of_stops {ks u v : List Kind} {x : Kind} (hsplit : ks = u ++ x :: v)
    (hbegins : ∃ sentence, IsSentence sentence ∧ u <+: sentence ∧ u ≠ sentence)
    (hstops : ∀ s : State Kind Ty (Symbol Kind Ty), s.Fits s.kinds.length u x →
      Stops program.toEnd s u.length) : Judged ks := by
  have htake : ks.take u.length = u := by rw [hsplit, List.take_left]
  have htake' : ks.take (u.length + 1) = u ++ [x] := by
    rw [hsplit, List.take_length_add_append]
    rfl
  refine .stops u.length ⟨?_, ?_⟩ ?_
  · rw [htake]
    exact hbegins
  · rintro _ ⟨tokens, p, rfl, hp⟩ hprefix
    obtain ⟨hready, hinput⟩ := ready_facing hp.terminated
    refine hp.not_stops u.length (hstops _ ⟨hready, ?_, Nat.le_refl _⟩)
    rw [htake'] at hprefix
    unfold State.kinds
    rw [hinput]
    exact hprefix
  · intro s hready hprefix
    rw [htake'] at hprefix
    exact hstops s ⟨hready, hprefix, Nat.le_refl _⟩

/-- What can be continued to a program begins a sentence, and is none yet. -/
theorem begins_of_word {ks u v : List Kind} {x : Kind} (h : Terminated ks)
    (hsplit : ks = u ++ x :: v)
    (hword : ∀ s : State Kind Ty (Symbol Kind Ty), s.Fits s.kinds.length u x →
      ∃ more, s.input.take u.length ++ more ∈ phrases Program.Derives) :
    ∃ sentence, IsSentence sentence ∧ u <+: sentence ∧ u ≠ sentence := by
  -- tokens of these kinds, whatever their texts and places
  have htokens : (ks.map fun kind => (⟨kind, "", ⟨1, 1⟩⟩ : Token Kind)).map Token.kind = ks := by
    rw [List.map_map]
    exact List.map_id ks
  generalize ks.map (fun kind => (⟨kind, "", ⟨1, 1⟩⟩ : Token Kind)) = tokens at htokens
  obtain ⟨hready, hinput⟩ := @ready_facing tokens (by rwa [htokens])
  have hkinds : (facing tokens [] [] []).kinds = ks := by
    unfold State.kinds
    rw [hinput, htokens]
  obtain ⟨more, p, hp⟩ := hword (facing tokens [] [] [])
    ⟨hready, ⟨v, by rw [hkinds, hsplit, List.append_assoc]; rfl⟩, Nat.le_refl _⟩
  have hfirst : ((facing tokens [] [] []).input.take u.length).map Token.kind = u := by
    rw [hinput, List.map_take, htokens, hsplit, List.take_left]
  have hsentence : Sentence ((facing tokens [] [] []).input.take u.length ++ more ++
      [⟨.endOfFile, "", ⟨1, 1⟩⟩]) p := .intro hp rfl
  refine ⟨_, ⟨_, p, rfl, hsentence⟩, ?_, ?_⟩
  · rw [List.append_assoc, List.map_append, hfirst]
    exact List.prefix_append _ _
  · intro heq
    have hlength := congrArg List.length heq
    rw [List.append_assoc, List.map_append, hfirst, List.length_append, List.map_append,
      List.length_append, List.map_singleton, List.length_singleton] at hlength
    omega

/-- A source is a program if the start rule gets through and its end comes then. -/
theorem sentence_of_word {s : State Kind Ty (Symbol Kind Ty)} {u : List Kind}
    (hkinds : s.kinds = u ++ [Kind.endOfFile])
    (hword : s.input.take u.length ∈ phrases Program.Derives) : ∃ p, Sentence s.input p := by
  obtain ⟨p, hp⟩ := hword
  obtain ⟨before, last, hinput, hbefore, hlast⟩ := List.map_eq_append_iff.1 hkinds
  obtain ⟨final, rfl, hfinal⟩ := List.map_eq_singleton_iff.1 hlast
  have hlength : u.length = before.length := by rw [← hbefore, List.length_map]
  rw [hinput, hlength, List.take_left] at hp
  refine ⟨p, ?_⟩
  rw [hinput]
  exact .intro hp hfinal

/-- The kinds of a source settle what its recovering run does. -/
theorem judged {ks : List Kind} (h : Terminated ks) : Judged ks := by
  obtain ⟨y, rest, rfl⟩ : ∃ y rest, ks = y :: rest := by
    apply List.exists_cons_of_ne_nil
    rintro rfl
    obtain ⟨before, heq, -⟩ := h
    simp at heq
  -- The rule for programs either stops within the kinds, or it passes.  Then what is behind a
  -- program has to be the end.
  cases (program_settles (m := (y :: rest).length)).settled y rest trivial h (Nat.le_refl _) with
  | stops u x v hsplit hstops =>
    refine judged_of_stops hsplit (begins_of_word h hsplit ?_) ?_
    · intro s hs
      exact (hstops _ () s hs).2
    · intro s hs
      exact (hstops _ () s hs).1.bind_left fun _ => .mustEnd
  | passes u x v hsplit hpasses =>
    by_cases hx : x = .endOfFile
    · subst hx
      rw [hsplit] at h
      obtain rfl := h.right.eq_nil
      refine .reads ?_
      intro s hready hkinds
      rw [hsplit] at hkinds
      have hfits : s.Fits s.kinds.length (u ++ []) .endOfFile :=
        ⟨hready, by rw [hkinds, List.append_nil], Nat.le_refl _⟩
      obtain ⟨hpass, hword⟩ := hpasses _ () s (by rwa [List.append_nil] at hfits)
      refine ⟨⟨_, hpass.bind fun _ t ready after => passes_mustEnd ready ?_⟩,
        sentence_of_word hkinds hword⟩
      exact (hfits.right ready after).lookahead_kind
    · refine judged_of_stops hsplit (begins_of_word h hsplit ?_) ?_
      · intro s hs
        exact ⟨[], by rw [List.append_nil]; exact (hpasses _ () s hs).2⟩
      · intro s hs
        refine Stops.bind_right (hpasses _ () s hs).1 fun _ t ready after =>
          stops_mustEnd ready ?_
        have hfits : s.Fits s.kinds.length (u ++ []) x := by rwa [List.append_nil]
        rw [(hfits.right ready after).lookahead_kind]
        exact hx

/-! ## Sources -/

/-- The kinds of a source end with that of its end. -/
theorem kinds_terminated (source : Source) : Terminated (kinds source) := by
  obtain ⟨before, last, heq, hlast, hbefore⟩ := source.tokens_eq_append classifier
  refine ⟨before.map Token.kind, ?_, ?_⟩
  · unfold kinds
    rw [heq, List.map_append, List.map_singleton, Token.isEnd_eq_true.1 hlast]
  · intro hmem
    obtain ⟨t, ht, hkind⟩ := List.mem_map.1 hmem
    have hend : t.isEnd = true := Token.isEnd_eq_true.2 hkind
    rw [hbefore t ht] at hend
    exact Bool.false_ne_true hend

/-- Every source gives a run that is ready to go over its tokens. -/
theorem ready_initial (source : Source) :
    (State.initial classifier source : State Kind Ty (Symbol Kind Ty)).Ready ∧
      (State.initial classifier source : State Kind Ty (Symbol Kind Ty)).kinds = kinds source := by
  have hkinds : (State.initial classifier source : State Kind Ty (Symbol Kind Ty)).kinds =
      kinds source := by
    unfold State.kinds kinds
    rw [State.initial_input]
  refine ⟨⟨State.initial_recovering _ _, State.initial_scansOnly _ _, ?_⟩, hkinds⟩
  rw [hkinds]
  exact kinds_terminated source

/-- A run begins without an unexpected token. -/
theorem initial_sink_scanning (source : Source) :
    ∀ d ∈ (State.initial classifier source : State Kind Ty (Symbol Kind Ty)).sink,
      d.isUnexpected = false := by
  intro d hd
  have hscanning := State.isScanning_of_mem_initial_sink classifier source hd
  cases d <;> first | rfl | exact absurd hscanning Bool.false_ne_true

/-- What the recovering run on a source has recorded if it stops. -/
theorem recorded_of_stops {source : Source} {k : Nat}
    (h : Stops program.toEnd (State.initial classifier source) k) :
    ∃ token expected, (source.tokens classifier)[k]? = some token ∧
      (run classifier program .recovering source).2.sink.find? Diagnostic.isUnexpected =
        some (.unexpected token expected) ∧
      ((run classifier program .recovering source).2.sink.takeWhile (!·.isUnexpected)).filter
          Diagnostic.isScanning =
        (Cursor.start source).faults ++
          ((source.stream classifier).take (k + 1)).flatMap Scanned.faults := by
  obtain ⟨token, expected, htoken, hfind, hscanning⟩ :=
    h.first_unexpected (initial_sink_scanning source)
  rw [State.initial_input] at htoken
  refine ⟨token, expected, htoken, hfind, hscanning.trans ?_⟩
  have hall : ∀ d ∈ (State.initial classifier source : State Kind Ty (Symbol Kind Ty)).sink,
      d.isScanning = true :=
    fun d hd => State.isScanning_of_mem_initial_sink classifier source hd
  rw [List.filter_eq_self.2 hall]
  obtain ⟨first, more, hstream, hinitial⟩ :=
    State.initial_eq (τ := Ty) (ω := Symbol Kind Ty) classifier source
  rw [hinitial, hstream, List.take_succ_cons, List.flatMap_cons, List.append_assoc]
  rfl

/-- A run that meets no unexpected token has read a program. -/
theorem sentence_of_no_unexpected {source : Source}
    (h : (run classifier program .recovering source).2.sink.find? Diagnostic.isUnexpected = none) :
    ∃ p, Sentence (source.tokens classifier) p := by
  obtain ⟨hready, hkinds⟩ := ready_initial source
  cases judged (kinds_terminated source) with
  | reads hrun =>
    rw [← State.initial_input (τ := Ty) (ω := Symbol Kind Ty)]
    exact (hrun _ hready hkinds).2
  | stops k _ hrun =>
    have hprefix : (kinds source).take (k + 1) <+:
        (State.initial classifier source : State Kind Ty (Symbol Kind Ty)).kinds := by
      rw [hkinds]
      exact List.take_prefix _ _
    obtain ⟨token, expected, -, hfind, -⟩ := recorded_of_stops (hrun _ hready hprefix)
    rw [h] at hfind
    simp at hfind

/-- If a recovering run meets an unexpected token, then the first such token is the first token that
no program goes on with; if it meets none, the source is a program.  When the token is reported, no
token behind it has been read: of the scanner's faults those of the tokens up to it are recorded,
and a source with other tokens behind it has its first unexpected token at the same place. -/
theorem first_unexpected_is_misplaced (source : Source) :
    match (run classifier program .recovering source).2.sink.find? Diagnostic.isUnexpected with
    | none => IsSentence (kinds source)
    | some d => ∃ k token expected,
        d = .unexpected token expected ∧ (source.tokens classifier)[k]? = some token ∧
        Misplaced (kinds source) k ∧
        ((run classifier program .recovering source).2.sink.takeWhile (!·.isUnexpected)).filter
            Diagnostic.isScanning =
          (Cursor.start source).faults ++
            ((source.stream classifier).take (k + 1)).flatMap Scanned.faults ∧
        ∀ other, (kinds source).take (k + 1) <+: kinds other →
          ∃ token' expected', (other.tokens classifier)[k]? = some token' ∧
            (run classifier program .recovering other).2.sink.find? Diagnostic.isUnexpected =
              some (.unexpected token' expected') := by
  obtain ⟨hready, hkinds⟩ := ready_initial source
  cases judged (kinds_terminated source) with
  | reads hrun =>
    obtain ⟨⟨k, hpasses⟩, p, hp⟩ := hrun _ hready hkinds
    have hnone := hpasses.unexpected_eq_none (initial_sink_scanning source)
    rw [State.initial_input] at hp
    unfold run
    rw [hnone]
    exact ⟨_, p, rfl, hp⟩
  | stops k hmisplaced hrun =>
    have hprefix : (kinds source).take (k + 1) <+:
        (State.initial classifier source : State Kind Ty (Symbol Kind Ty)).kinds := by
      rw [hkinds]
      exact List.take_prefix _ _
    obtain ⟨token, expected, htoken, hfind, hscanning⟩ :=
      recorded_of_stops (hrun _ hready hprefix)
    rw [hfind]
    refine ⟨k, token, expected, rfl, htoken, hmisplaced, hscanning, ?_⟩
    -- The run depends on the kinds up to here only, so it is the same for the other source.
    intro other hother
    obtain ⟨hready', hkinds'⟩ := ready_initial other
    rw [← hkinds'] at hother
    obtain ⟨token', expected', htoken', hfind', -⟩ := recorded_of_stops (hrun _ hready' hother)
    exact ⟨token', expected', htoken', hfind'⟩

end SinglePass.Simple
