import Reckoner.Proofs.Evaluation.Nodes
import Reckoner.Proofs.Journal.Reading

/-! What a calculation leaves in the journal: each node of the tree that has a value, with this
value, up to the first that fails. -/

namespace Reckoner

variable {scope bound : Scope} {source : String}

namespace Token

variable {t : Token} {stack : List Float}

lemma records_replayStep {x : Float} {rest : List Float}
    (h : (t.replayStep scope source stack).result = .ok (x :: rest)) :
    (t.replayStep scope source stack).records = [.computed t.postfixSymbol x] := by
  rw [result_replayStep] at h
  cases heval : t.eval scope stack with
  | error f => simp [heval] at h
  | ok r =>
    obtain ⟨y, ys⟩ := r
    obtain ⟨rfl, -⟩ : y = x ∧ ys = rest := by simpa [heval] using h
    rw [replayStep, heval, Logged.records_bind_ok rfl, Logged.records_bind_ok rfl]
    rfl

lemma records_replayStep_error {e : EvalError}
    (h : (t.replayStep scope source stack).result = .error e) :
    (t.replayStep scope source stack).records = [] := by
  rw [result_replayStep] at h
  cases heval : t.eval scope stack with
  | ok r => simp [heval] at h
  | error f =>
    rw [replayStep, heval]
    rfl

end Token

lemma records_replay (ts : List Token) : (replay scope source ts).records =
    (ts.foldlM (Token.replayStep scope source) []).records := by
  rw [replay, Logged.records_bind]
  cases (ts.foldlM (Token.replayStep scope source) []).result <;> simp

namespace Tree

/-- The nodes of a tree in front of the first that fails, each with its value, and the outcome. The
value of the last node is the value of the tree. -/
inductive Computed (scope : Scope) (source : String) (t : Tree) :
    List (Tree × Float) → Except EvalError Float → Prop
  | value {valued : List (Tree × Float)} {last : Tree × Float} :
      t.nodes = (valued ++ [last]).map Prod.fst →
      (∀ v ∈ valued ++ [last], v.1.eval scope source = .ok v.2) →
      Computed scope source t (valued ++ [last]) (.ok last.2)
  | fault {valued : List (Tree × Float)} {n : Tree} {after : List Tree} {f : EvalFault} :
      t.nodes = valued.map Prod.fst ++ n :: after →
      (∀ v ∈ valued, v.1.eval scope source = .ok v.2) → Fails scope source n f →
      Computed scope source t valued (.error (n.root.fault source f))

def record (v : Tree × Float) : Record := .computed v.1.root.postfixSymbol v.2

variable {t n : Tree} {valued : List (Tree × Float)}

lemma exists_valued {ns : List Tree} (h : ∀ m ∈ ns, ∃ x, m.eval scope source = .ok x) :
    ∃ valued : List (Tree × Float), valued.map Prod.fst = ns ∧
      ∀ v ∈ valued, v.1.eval scope source = .ok v.2 := by
  induction ns with
  | nil => exact ⟨[], rfl, by simp⟩
  | cons m ns ih =>
    obtain ⟨x, hx⟩ := h m (by simp)
    obtain ⟨valued, hmap, hvalued⟩ := ih fun m hm => h m (by simp [hm])
    exact ⟨(m, x) :: valued, by simp [hmap], List.forall_mem_cons.mpr ⟨hx, hvalued⟩⟩

/-- The state behind a replay of nodes that have values. -/
structure Replayed (scope : Scope) (source : String) (valued : List (Tree × Float))
    (stack : List Float) : Prop where
  result : replayOn scope source [] ((valued.map Prod.fst).map root) = .ok stack
  top : stack.head? = (valued.getLast?).map Prod.snd
  records : (((valued.map Prod.fst).map root).foldlM (Token.replayStep scope source) []).records =
    valued.map record

lemma Replayed.records_append {stack : List Float} (h : Replayed scope source valued stack)
    (ts : List Token) :
    (((valued.map Prod.fst).map root ++ ts).foldlM (Token.replayStep scope source) []).records =
      valued.map record ++ (ts.foldlM (Token.replayStep scope source) stack).records := by
  rw [List.foldlM_append, Logged.records_bind_ok h.result, h.records]

theorem exists_replayed (hreplays : ∀ n ∈ t.nodes, Replays scope source n)
    (hfront : valued.map Prod.fst <+: t.nodes)
    (hvalued : ∀ v ∈ valued, v.1.eval scope source = .ok v.2) :
    ∃ stack, Replayed scope source valued stack := by
  induction valued using List.reverseRecOn with
  | nil => exact ⟨[], rfl, rfl, rfl⟩
  | append_singleton valued v ih =>
    rw [List.map_append, List.map_singleton] at hfront
    obtain ⟨stack, hstack⟩ := ih ((List.prefix_append _ _).trans hfront)
      fun v hv => hvalued v (by simp [hv])
    obtain ⟨rest, hstep⟩ :=
      replayStep_node (hreplays v.1 (hfront.subset (by simp))) hfront hstack.result
    rw [hvalued v (by simp)] at hstep
    refine ⟨v.2 :: rest, ?_, by simp, ?_⟩
    · rw [List.map_append, List.map_append, replayOn_append, hstack.result]
      exact (replayOn_single _ _).trans hstep
    · simp only [List.map_append, List.map_singleton, hstack.records_append]
      simp [Token.records_replayStep hstep, record]

end Tree

def Token.shuntingText (t : Token) : String :=
  "shunting " ++ t.category.display ++ " '" ++ t.text ++ "' at " ++ toString t.offset

lemma map_message_shunting (ts : List Token) :
    (ts.map Record.shunting).map Record.message = ts.map Token.shuntingText := by
  rw [List.map_map]
  rfl

lemma Tree.map_message_record (valued : List (Tree × Float)) :
    (valued.map record).map Record.message =
      valued.map fun v => "'" ++ v.1.root.postfixSymbol ++ "' -> " ++ Numeral.display v.2 := by
  rw [List.map_map]
  rfl

namespace Expression

lemma exists_computed {t : Tree} (ht : IsTree bound source t) (scope : Scope) :
    ∃ valued, t.Computed scope source valued ((t.expression source).calculate scope).result ∧
      ((t.expression source).calculate scope).records = valued.map Tree.record := by
  have hspelled := Token.spelled_of_tokenize ht.tokens
  have hreplays : ∀ n ∈ t.nodes, Tree.Replays scope source n :=
    Tree.replays_nodes ht.derives hspelled
  have hrecords : ((t.expression source).calculate scope).records =
      ((t.nodes.map Tree.root).foldlM (Token.replayStep scope source) []).records := by
    rw [calculate, records_replay, t.map_root_nodes]
    rfl
  have hreplayed : Tree.Replays scope source t := Tree.replays_of_derives ht.derives hspelled
  rw [hrecords, Tree.result_calculate hreplayed]
  cases heval : t.eval scope source with
  | ok x =>
    obtain ⟨valued, hnodes, hvalued⟩ := Tree.exists_valued (Tree.eval_nodes heval)
    obtain ⟨stack, hstack⟩ := Tree.exists_replayed hreplays (hnodes ▸ List.prefix_refl _) hvalued
    -- nothing but the value of the tree is left on the stack
    have hresult := hstack.result
    rw [hnodes, t.map_root_nodes, hreplayed, heval] at hresult
    obtain rfl := Except.ok.inj hresult
    obtain ⟨last, hlast, rfl⟩ := Option.map_eq_some_iff.mp hstack.top.symm
    obtain ⟨front, rfl⟩ := List.getLast?_eq_some_iff.mp hlast
    exact ⟨_, .value hnodes.symm hvalued, hnodes ▸ hstack.records⟩
  | error e =>
    obtain ⟨before, n, after, f, hnodes, hbefore, hfails, rfl⟩ :=
      Tree.firstFault_of_eval ht.derives heval
    obtain ⟨valued, rfl, hvalued⟩ := Tree.exists_valued hbefore
    have hfront : valued.map Prod.fst ++ [n] <+: t.nodes := ⟨after, by simp [hnodes]⟩
    obtain ⟨stack, hstack⟩ :=
      Tree.exists_replayed hreplays ((List.prefix_append _ _).trans hfront) hvalued
    obtain ⟨rest, hstep⟩ :=
      Tree.replayStep_node (hreplays n (hfront.subset (by simp))) hfront hstack.result
    rw [Tree.eval_of_fails hfails] at hstep
    refine ⟨valued, .fault hnodes hvalued hfails, ?_⟩
    rw [hnodes, List.map_append, hstack.records_append, List.map_cons, List.foldlM_cons,
      Logged.records_bind_error hstep, Token.records_replayStep_error hstep, List.append_nil]

/-- What is read and what is computed, as the journal has it. -/
theorem trace_exact (scope : Scope) (source : String) :
    (∀ e, Token.tokenize source = .error e →
      (parse scope source).result = .error e ∧ (parse scope source).journal .trace = []) ∧
    (∀ ts, Token.tokenize source = .ok ts →
      (∀ e, (parse scope source).result = .ok e →
        Token.classifyAll scope .start ts = .ok e.infixTokens ∧
          e.infixTokens.map Token.origin = ts.map Token.origin ∧
          (parse scope source).journal .trace =
            e.infixTokens.map .shunting ++ [.parsed source e.postfixText] ∧
          (parse scope source).texts .trace = e.infixTokens.map Token.shuntingText ++
            ["parsed '" ++ source ++ "' into " ++ e.postfixText]) ∧
      ∀ e, (parse scope source).result = .error e →
        ∃ us, Stops scope source ts e us ∧ us.map Token.origin <+: ts.map Token.origin ∧
          (parse scope source).journal .trace = us.map .shunting ∧
          (parse scope source).texts .trace = us.map Token.shuntingText) ∧
    ∀ e, (parse scope source).result = .ok e →
      ∃ t, IsTree scope source t ∧ t.nodes.map Tree.root = e.postfixTokens ∧
        ∀ current : Scope, ∃ valued,
          t.Computed current source valued (e.calculate current).result ∧
            (e.calculate current).journal .trace =
              (valued.map fun v => .computed v.1.root.postfixSymbol v.2) ∧
            (e.calculate current).texts .trace =
              valued.map fun v => "'" ++ v.1.root.postfixSymbol ++ "' -> " ++ Numeral.display v.2 := by
  simp only [Logged.texts, Logged.journal_trace]
  refine ⟨fun e hts => ⟨result_parse_error hts, ?_⟩, fun ts hts => ⟨fun e he => ?_, fun e he => ?_⟩,
    fun e he => ?_⟩
  · rw [records_parse_error (result_parse_error hts), records_convert_error hts]
  · obtain ⟨opened, hpasses⟩ := classifyAll_of_parse hts he
    have hrecords := records_of_parse hts he
    refine ⟨hpasses.classified, Token.map_origin hpasses.classified, hrecords, ?_⟩
    rw [hrecords, List.map_append, map_message_shunting]
    rfl
  · obtain ⟨us, hstops, hrecords⟩ := stops_of_parse hts he
    refine ⟨us, hstops, hstops.map_origin, hrecords, ?_⟩
    rw [hrecords, map_message_shunting]
  · obtain ⟨t, ht, rfl⟩ := exists_isTree he
    refine ⟨t, ht, t.map_root_nodes, fun current => ?_⟩
    obtain ⟨valued, hcomputed, hrecords⟩ := exists_computed ht current
    refine ⟨valued, hcomputed, hrecords, ?_⟩
    rw [hrecords, Tree.map_message_record]

theorem trace_exact_fault :
    (∃ us, Stops ⟨fun _ => none, fun _ => none⟩ "2)" [⟨.number, "2", 0⟩, ⟨.closing, ")", 1⟩]
      ⟨.unexpectedClosing ')', "2)", 1⟩ us) ∧
    ∃ t, IsTree ⟨fun _ => some 1, fun _ => none⟩ "2/y" t ∧
      ∃ valued, t.Computed ⟨fun _ => none, fun _ => none⟩ "2/y" valued
        (.error (.atToken (.unknownVariable "y") ⟨"2/y", 2⟩)) := by
  have hts : Token.tokenize "2)" = .ok [⟨.number, "2", 0⟩, ⟨.closing, ")", 1⟩] := by
    cbv
  have hrefused : (parse ⟨fun _ => none, fun _ => none⟩ "2)").result =
      .error ⟨.unexpectedClosing ')', "2)", 1⟩ := by
    cbv
  have hparse : (parse ⟨fun _ => some 1, fun _ => none⟩ "2/y").result = .ok ⟨"2/y",
      [⟨.number, "2", 0⟩, ⟨.binary, "/", 1⟩, ⟨.variableName, "y", 2⟩],
      [⟨.number, "2", 0⟩, ⟨.variableName, "y", 2⟩, ⟨.binary, "/", 1⟩]⟩ := by
    cbv
  obtain ⟨us, hstops, -⟩ := ((trace_exact _ _).2.1 _ hts).2 _ hrefused
  obtain ⟨t, ht, -, htrace⟩ := (trace_exact _ _).2.2 _ hparse
  obtain ⟨valued, hvalued, -⟩ := htrace ⟨fun _ => none, fun _ => none⟩
  exact ⟨⟨us, hstops⟩, t, ht, valued, hvalued⟩

end Expression

end Reckoner
