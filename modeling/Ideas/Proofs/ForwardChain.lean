/-
What the walk along forward references answers, and what it asks for.

Every answer of the walk is told by the route that it has taken: the nodes of the route are the
chain, or the route comes to an id twice, or to one that is not stored, or to one that cannot be
read.  The routes are a matter of the store alone and know nothing of the walk, its list of ids
that it has seen, or the bound on its steps.

A watched store shows how often it was asked.  An action that only reads does to it as much as to
the store behind, which is nothing, and ends like there unless the fault strikes (`Watches`).
-/
import Ideas.Proofs.Walk

namespace Ideas

open NodeStore Lookup

/-! ### Reading through a watch -/

section

variable {σ α β : Type} {most more : Nat} {m : Monitored σ}

/-- An action that reads nodes of a watched store, a number of times at the most, ends as it does on
the store behind, unless the fault strikes. -/
structure Watches (most : Nat) (act : Action (Monitored σ) α) (behind : Action σ α)
    (m : Monitored σ) : Prop where
  still : (behind m.inner).2 = m.inner
  inner : (act m).2.inner = m.inner
  requests : ∃ count ≤ most, (act m).2.requests = List.replicate count .get ++ m.requests
  answer : (act m).1 = (behind m.inner).1 ∧ (m.fault = none → (act m).2.fault = none) ∨
    m.fault ≠ none ∧ (act m).1 = .error Monitored.injected

theorem watches_pure (a : α) : Watches most (pure a) (pure a : Action σ α) m :=
  ⟨rfl, rfl, ⟨0, Nat.zero_le _, rfl⟩, Or.inl ⟨rfl, fun h => h⟩⟩

theorem watches_throw (e : EngineError) : Watches most (throw e) (throw e : Action σ α) m :=
  ⟨rfl, rfl, ⟨0, Nat.zero_le _, rfl⟩, Or.inl ⟨rfl, fun h => h⟩⟩

/-- Two parts read as often as the first and the second do. -/
theorem Watches.bind {act : Action (Monitored σ) α} {behind : Action σ α}
    {f : α → Action (Monitored σ) β} {g : α → Action σ β} (h : Watches most act behind m)
    (hf : ∀ a mid, mid.inner = m.inner → Watches more (f a) (g a) mid) :
    Watches (most + more) (act >>= f) (behind >>= g) m := by
  obtain ⟨still, inner, ⟨count, hcount, hrequests⟩, answer⟩ := h
  rcases hact : act m with ⟨r, mid⟩
  rw [hact] at inner hrequests answer
  rcases hbehind : behind m.inner with ⟨r', s⟩
  rw [hbehind] at still answer
  obtain rfl : s = m.inner := still
  have inner : mid.inner = m.inner := inner
  have hstill : ((behind >>= g) m.inner).2 = m.inner := by
    cases r' with
    | error e => rw [bind_eq_of_error hbehind]
    | ok a =>
        rw [bind_eq_of_ok hbehind, ← inner]
        exact (hf a mid inner).still
  cases r with
  | error e =>
      rw [← inner] at hbehind
      have hrun := bind_eq_of_error (f := f) hact
      refine ⟨hstill, by rw [hrun]; exact inner,
        ⟨count, hcount.trans (Nat.le_add_right _ _), by rw [hrun]; exact hrequests⟩, ?_⟩
      rw [hrun]
      rcases answer with ⟨hsame, hfault⟩ | hstruck
      · obtain rfl : .error e = r' := hsame
        rw [← inner, bind_eq_of_error hbehind]
        exact Or.inl ⟨rfl, hfault⟩
      · exact Or.inr ⟨hstruck.1, congrArg Except.error (Except.error.inj hstruck.2)⟩
  | ok a =>
      obtain ⟨hsame, hfault⟩ | ⟨-, hstruck⟩ := answer
      · obtain rfl : .ok a = r' := hsame
        obtain ⟨-, inner', ⟨count', hcount', hrequests'⟩, answer'⟩ := hf a mid inner
        have hrun := bind_eq_of_ok (f := f) hact
        refine ⟨hstill, by rw [hrun, inner', inner],
          ⟨count' + count, by omega, ?_⟩, ?_⟩
        · rw [hrun, hrequests', show mid.requests = _ from hrequests, ← List.append_assoc,
            List.replicate_append_replicate]
        · rw [hrun, bind_eq_of_ok hbehind, ← inner]
          rcases answer' with ⟨hsame', hfault'⟩ | ⟨hmid, hstruck⟩
          · exact Or.inl ⟨hsame', fun hnone => hfault' (hfault hnone)⟩
          · exact Or.inr ⟨fun hnone => hmid (hfault hnone), hstruck⟩
      · cases hstruck

end

variable {σ : Type} [NodeStore σ] [Lookup σ]

theorem watches_get (id : NodeId) (m : Monitored σ) :
    Watches 1 (get id) (get id : Action σ _) m := by
  have hstill := get_snd id m.inner
  rcases hstrike : Monitored.strike .get m.fault with ⟨struck, fault⟩
  cases struck with
  | true =>
      have hrun : (get id : Action (Monitored σ) _) m = _ := Monitored.pass_of_strike _ hstrike
      refine ⟨hstill, by rw [hrun], ⟨1, Nat.le_refl 1, by rw [hrun]; rfl⟩,
        Or.inr ⟨?_, by rw [hrun]; rfl⟩⟩
      intro hnone
      rw [hnone] at hstrike
      cases hstrike
  | false =>
      have hrun : (get id : Action (Monitored σ) _) m
          = ((get id m.inner).1, ⟨(get id m.inner).2, .get :: m.requests, fault⟩) := by
        show Monitored.pass .get (get id) m = _
        simp only [Monitored.pass, hstrike]
        rfl
      refine ⟨hstill, by rw [hrun]; exact hstill, ⟨1, Nat.le_refl 1, by rw [hrun]; rfl⟩,
        Or.inl ⟨by rw [hrun], fun hnone => ?_⟩⟩
      rw [hnone] at hstrike
      cases hstrike
      rw [hrun]

theorem watches_require (id : NodeId) (m : Monitored σ) :
    Watches 1 (require id) (require id : Action σ Node) m := by
  show Watches (1 + 0) _ _ m
  refine (watches_get id m).bind fun found mid _ => ?_
  cases found with
  | none => exact watches_throw _
  | some n => exact watches_pure n

/-- A walk reads one node at each step, and asks for nothing else. -/
theorem watches_followForward : ∀ (steps : Nat) (seen : List NodeId) (id : NodeId)
    (m : Monitored σ),
    Watches steps (followForward steps seen id) (followForward steps seen id : Action σ _) m := by
  intro steps
  induction steps with
  | zero => exact fun _ id _ => watches_throw (.cycleDetected id)
  | succ steps ih =>
      intro seen id m
      by_cases hseen : id ∈ seen
      · rw [followForward, followForward, if_pos hseen, if_pos hseen]
        exact watches_throw _
      rw [followForward_of_notMem hseen, followForward_of_notMem hseen, Nat.add_comm]
      refine (watches_require id m).bind fun n mid _ => ?_
      cases n.forward with
      | none => exact watches_pure [n]
      | some next =>
          show Watches (steps + 0) _ _ mid
          exact (ih (id :: seen) next mid).bind fun rest _ _ => watches_pure (n :: rest)

theorem watches_forwardChain (id : NodeId) (m : Monitored σ) :
    Watches (nodeCount m.inner + 1) (forwardChain id) (forwardChain id : Action σ _) m := by
  obtain ⟨still, inner, requests, answer⟩ :=
    watches_followForward (nodeCount m.inner + 1) [] id m
  exact ⟨still, inner, requests, answer⟩

/-! ### What is answered -/

/-- What is answered of the forward path from an id in a kind of store. -/
structure DecidesForwardPath (σ : Type) [NodeStore σ] : Prop where
  unchanged : ∀ (s : σ) (id : NodeId), (forwardChain id s).2 = s
  arrives : ∀ (s : σ) (id : NodeId) (chain : List Node), (forwardChain id s).1 = .ok chain ↔
    ∃ path last, chain = path ++ [last] ∧ (chain.map Node.id).Nodup ∧ Route s id path last.id ∧
      held s last.id = .ok (some last) ∧ last.forward = none
  returns : ∀ (s : σ) (id x : NodeId), (forwardChain id s).1 = .error (.cycleDetected x) ↔
    ∃ path, Route s id path x ∧ (path.map Node.id).Nodup ∧ x ∈ path.map Node.id
  repeats : ∀ (s : σ) (id : NodeId), (∃ x, (forwardChain id s).1 = .error (.cycleDetected x)) ↔
    ∃ path x, Route s id path x ∧ ¬ (path.map Node.id ++ [x]).Nodup
  leaves : ∀ (s : σ) (id x : NodeId), (forwardChain id s).1 = .error (.nodeNotFound x) ↔
    ∃ path, Route s id path x ∧ (path.map Node.id).Nodup ∧ held s x = .ok none
  fails : ∀ (s : σ) (id : NodeId) (cause : StoreError),
    (forwardChain id s).1 = .error (.ofStore cause) ↔
      ∃ path x, Route s id path x ∧ (path.map Node.id).Nodup ∧
        held s x = .error (.ofStore cause)
  errors : ∀ (s : σ) (id : NodeId) (e : EngineError), (forwardChain id s).1 = .error e →
    (∃ x, e = .cycleDetected x) ∨ (∃ x, e = .nodeNotFound x) ∨ ∃ cause, e = .ofStore cause
  /-- The bound on the steps is not what ends a walk. -/
  unbounded : ∀ (s : σ) (id : NodeId) (steps : Nat), nodeCount s < steps →
    followForward steps [] id s = forwardChain id s
  watches : ∀ (id : NodeId) (m : Monitored σ),
    Watches (nodeCount m.inner + 1) (forwardChain id) (forwardChain id : Action σ _) m

theorem decidesForwardPath : DecidesForwardPath σ where
  unchanged s id := (forwardChain_eq_iff.mp (Prod.eta (forwardChain id s)).symm).1
  arrives s id chain := forwardChain_fst_eq_iff.trans walks_ok_iff
  returns s id x := forwardChain_fst_eq_iff.trans walks_cycleDetected_iff
  repeats s id := by
    constructor
    · rintro ⟨x, hx⟩
      obtain ⟨path, hroute, -, again⟩ :=
        walks_cycleDetected_iff.mp (forwardChain_fst_eq_iff.mp hx)
      refine ⟨path, x, hroute, fun hnodup => ?_⟩
      exact (List.nodup_append.mp hnodup).2.2 x again x List.mem_cons_self rfl
    · rintro ⟨path, x, hroute, hrepeats⟩
      obtain ⟨y, hwalks⟩ := hroute.returns hrepeats
      exact ⟨y, forwardChain_fst_eq_iff.mpr hwalks⟩
  leaves s id x := forwardChain_fst_eq_iff.trans walks_nodeNotFound_iff
  fails s id cause := forwardChain_fst_eq_iff.trans walks_ofStore_iff
  errors s id e h := (forwardChain_fst_eq_iff.mp h).error_cases
  unbounded s id steps h := followForward_eq_forwardChain h id
  watches := watches_forwardChain

/-- The walk along forward references decides where they lead from an id, whatever is stored: to a
node that points nowhere, and then it answers with the nodes passed, all different; or to an id
that was passed before, and then it tells the first one met again; or to an id that is not stored.
In a database it may come to a row that cannot be read, too.  It ends by itself, asks for no more
nodes than are stored and one, and changes nothing. -/
theorem forward_path_decided : DecidesForwardPath Memory ∧ DecidesForwardPath Database :=
  ⟨decidesForwardPath, decidesForwardPath⟩

/-- Some nodes that point at one another. -/
def pointing : Memory where
  nodes := [
    { Node.leaf ⟨1⟩ "ann" "kite" with forward := some ⟨2⟩ },
    { Node.leaf ⟨2⟩ "ann" "kite" with forward := some ⟨3⟩ },
    { Node.leaf ⟨3⟩ "ann" "kite" with forward := some ⟨2⟩ },
    { Node.leaf ⟨4⟩ "ann" "sail" with forward := some ⟨5⟩ },
    .leaf ⟨5⟩ "ann" "sail",
    { Node.leaf ⟨6⟩ "ann" "mast" with forward := some ⟨7⟩ }]

-- The cycle is not entered where it is begun, and it is told where it is entered.
example : (forwardChain ⟨1⟩ pointing).1 = .error (.cycleDetected ⟨2⟩) := rfl

example : (forwardChain ⟨4⟩ pointing).1.map (·.map Node.id) = .ok [⟨4⟩, ⟨5⟩] := rfl

example : (forwardChain ⟨6⟩ pointing).1 = .error (.nodeNotFound ⟨7⟩) := rfl

end Ideas
