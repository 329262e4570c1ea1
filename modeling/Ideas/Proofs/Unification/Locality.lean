/-
A unification keeps to what its two ids lead to.

The region of two ids is what forward references and arcs lead to from them
(`Memory.Reach`).  A unification reads and writes inside it, and the region stays closed
while forward references are added, since each of them points at a node inside.  So two
stores that agree on the region are unified alike, whatever else they hold and whatever
their counters say: the outcomes are the same, errors included, and the nodes differ at
most in the stamps of those that were forwarded.

This is shown of the program as it stands, by running it on two stores side by side.  The
stores need not be of one size, which is why the depths that bound the recursion are
brought to a common one first.

Where two regions have no id in common, two unifications therefore take no notice of each
other, and it does not matter which comes first.
-/
import Ideas.Proofs.Memory
import Ideas.Proofs.Unification.Demand
import Ideas.Proofs.Unification.Idempotence
import Ideas.Proofs.Unification.Termination

namespace Ideas

open NodeStore Backed

/-! ### Two actions side by side -/

section

variable {ε τ τ' α α' β β' : Type}

/-- The same failure, or two values that go together. -/
inductive Matches (together : α → α' → Prop) : Except ε α → Except ε α' → Prop
  | error (e : ε) : Matches together (.error e) (.error e)
  | ok {a : α} {a' : α'} (h : together a a') : Matches together (.ok a) (.ok a')

/-- From states that are paired, two actions come to matching ends in states that are paired
again. -/
def SideBySide (paired : τ → τ' → Prop) (together : α → α' → Prop)
    (act : ExceptT ε (StateM τ) α) (act' : ExceptT ε (StateM τ') α') : Prop :=
  ∀ t t', paired t t' →
    Matches together (act t).1 (act' t').1 ∧ paired (act t).2 (act' t').2

variable {paired : τ → τ' → Prop} {together : α → α' → Prop} {together' : β → β' → Prop}

theorem sideBySide_pure {a : α} {a' : α'} (h : together a a') :
    SideBySide paired together (pure a : ExceptT ε (StateM τ) α) (pure a') :=
  fun _ _ hpaired => ⟨.ok h, hpaired⟩

theorem sideBySide_throw (e : ε) :
    SideBySide paired together (throw e : ExceptT ε (StateM τ) α) (throw e) :=
  fun _ _ hpaired => ⟨.error e, hpaired⟩

/-- Parts that go side by side make a whole that does. -/
theorem SideBySide.bind {act : ExceptT ε (StateM τ) α} {act' : ExceptT ε (StateM τ') α'}
    {f : α → ExceptT ε (StateM τ) β} {f' : α' → ExceptT ε (StateM τ') β'}
    (h : SideBySide paired together act act')
    (hf : ∀ a a', together a a' → SideBySide paired together' (f a) (f' a')) :
    SideBySide paired together' (act >>= f) (act' >>= f') := by
  intro t t' hpaired
  have hfirst := h t t' hpaired
  rcases hact : act t with ⟨r, mid⟩
  rcases hact' : act' t' with ⟨r', mid'⟩
  rw [hact, hact'] at hfirst
  obtain ⟨hmatches, hmid⟩ := hfirst
  cases hmatches with
  | error e =>
      rw [bind_eq_of_error hact, bind_eq_of_error hact']
      exact ⟨.error e, hmid⟩
  | ok htogether =>
      rw [bind_eq_of_ok hact, bind_eq_of_ok hact']
      exact hf _ _ htogether mid mid' hmid

end

/-! ### Nodes that differ in their stamps -/

/-- The same node, except that its stamp may differ if it was forwarded. -/
structure Node.Alike (n n' : Node) : Prop where
  eq_but_stamp : n' = { n with generation := n'.generation }
  eq_of_forward_eq_none : n.forward = none → n' = n

namespace Node.Alike

variable {n n' : Node}

theorem refl (n : Node) : n.Alike n :=
  ⟨rfl, fun _ => rfl⟩

theorem forward_eq (h : n.Alike n') : n'.forward = n.forward := by
  rw [h.eq_but_stamp]

theorem id_eq (h : n.Alike n') : n'.id = n.id := by
  rw [h.eq_but_stamp]

theorem symm (h : n.Alike n') : n'.Alike n where
  eq_but_stamp := by rw [h.eq_but_stamp]
  eq_of_forward_eq_none hn := (h.eq_of_forward_eq_none (h.forward_eq ▸ hn)).symm

/-- Nodes that are alike stay so when they are forwarded alike. -/
theorem forwarding (h : n.Alike n') (x : Node) (target : NodeId) (arcs : List Arc)
    (generation generation' : Nat) :
    ((Update.forwarding x target arcs generation).applyTo n).Alike
      ((Update.forwarding x target arcs generation').applyTo n') where
  eq_but_stamp := by rw [h.eq_but_stamp]; rfl
  eq_of_forward_eq_none hnone := nomatch hnone

end Node.Alike

namespace Memory

variable {m m' m₀ m₀' : Memory} {region : NodeId → Prop} {a b id : NodeId} {n n' : Node}

/-! ### Regions -/

/-- The ids that forward references and arcs lead to from two ids. -/
inductive Reach (m : Memory) (a b : NodeId) : NodeId → Prop
  | left : Reach m a b a
  | right : Reach m a b b
  | forward {id next : NodeId} {n : Node} (h : Reach m a b id) (found : m.node? id = some n)
      (hn : n.forward = some next) : Reach m a b next
  | arc {id target : NodeId} {n : Node} {arc : Arc} (h : Reach m a b id)
      (found : m.node? id = some n) (harc : arc ∈ n.arcs) (hvalue : arc.value = .node target) :
      Reach m a b target

/-- All that a node leads to lies in a region. -/
structure Stays (region : NodeId → Prop) (n : Node) : Prop where
  forward : ∀ next, n.forward = some next → region next
  arcs : ∀ arc ∈ n.arcs, ∀ target, arc.value = .node target → region target

/-- Nothing in a region leads out of it. -/
def Closed (m : Memory) (region : NodeId → Prop) : Prop :=
  ∀ id n, region id → m.node? id = some n → Stays region n

theorem closed_reach (m : Memory) (a b : NodeId) : m.Closed (m.Reach a b) :=
  fun _ _ hid found =>
    ⟨fun _ hn => .forward hid found hn, fun _ harc _ hv => .arc hid found harc hv⟩

/-- A region that nothing leads out of contains what its ids lead to. -/
theorem Reach.mem (h : m.Reach a b id) (hclosed : m.Closed region) (ha : region a)
    (hb : region b) : region id := by
  induction h with
  | left => exact ha
  | right => exact hb
  | forward _ found hn ih => exact (hclosed _ _ ih found).forward _ hn
  | arc _ found harc hvalue ih => exact (hclosed _ _ ih found).arcs _ harc _ hvalue

/-- Two memories that came from two others: they are alike in a region that neither leads out of,
and have not changed outside. -/
structure Beside (region : NodeId → Prop) (m₀ m₀' m m' : Memory) : Prop where
  alike : ∀ id, region id → Option.Rel Node.Alike (m.node? id) (m'.node? id)
  closed : m.Closed region
  kept : ∀ id, ¬ region id → m.node? id = m₀.node? id
  kept' : ∀ id, ¬ region id → m'.node? id = m₀'.node? id

/-- Two nodes that were read side by side. -/
structure Seen (region : NodeId → Prop) (n n' : Node) : Prop where
  alike : n.Alike n'
  inside : region n.id
  stays : Stays region n

/-- At the start it is enough that the two agree in the region. -/
theorem beside_start (hclosed : m.Closed region)
    (hagree : ∀ id, region id → m'.node? id = m.node? id) :
    Beside region m m' m m' where
  alike id hid := by
    rw [hagree id hid]
    cases m.node? id with
    | none => exact .none
    | some n => exact .some (.refl n)
  closed := hclosed
  kept _ _ := rfl
  kept' _ _ := rfl

/-! ### Reading -/

theorem sideBySide_require (hid : region id) :
    SideBySide (Beside region m₀ m₀') (Seen region) (require id : Action Memory Node)
      (require id) := by
  intro m m' h
  have halike := h.alike id hid
  cases found : m.node? id with
  | none =>
      cases found' : m'.node? id with
      | none =>
          rw [require_of_missing found, require_of_missing found']
          exact ⟨.error _, h⟩
      | some n' =>
          rw [found, found'] at halike
          cases halike
  | some n =>
      cases found' : m'.node? id with
      | none =>
          rw [found, found'] at halike
          cases halike
      | some n' =>
          rw [found, found'] at halike
          obtain ⟨halike⟩ := halike
          rw [require_of_found found, require_of_found found']
          exact ⟨.ok ⟨halike, (id_of_node? found).symm ▸ hid, h.closed id n hid found⟩, h⟩

/-- Two walks that end at the same node. -/
def SameEnd (region : NodeId → Prop) (chain chain' : List Node) : Prop :=
  ∃ last, chain.getLast? = some last ∧ chain'.getLast? = some last ∧ last.forward = none ∧
    Seen region last last

theorem sideBySide_followForward (steps : Nat) (seen : List NodeId) (hid : region id) :
    SideBySide (Beside region m₀ m₀') (SameEnd region)
      (followForward steps seen id : Action Memory (List Node)) (followForward steps seen id) := by
  induction steps generalizing seen id with
  | zero => exact sideBySide_throw _
  | succ steps ih =>
      by_cases hseen : id ∈ seen
      · rw [followForward, if_pos hseen]
        exact sideBySide_throw _
      · rw [followForward_of_notMem hseen]
        refine (sideBySide_require hid).bind fun n n' hn => ?_
        rw [hn.alike.forward_eq]
        cases hforward : n.forward with
        | none =>
            obtain rfl := hn.alike.eq_of_forward_eq_none hforward
            exact sideBySide_pure ⟨n', rfl, rfl, hforward, hn⟩
        | some next =>
            have hnext := hn.stays.forward next hforward
            refine (ih (id :: seen) hnext).bind fun rest rest' hrest => ?_
            obtain ⟨last, hlast, hlast', hnone, hseen⟩ := hrest
            refine sideBySide_pure ⟨last, ?_, ?_, hnone, hseen⟩
            · rw [List.getLast?_cons, hlast]
              rfl
            · rw [List.getLast?_cons, hlast']
              rfl

/-- More steps than a walk needs do not lengthen it. -/
theorem followForwardThen_followForward (extra : Nat) :
    ∀ (steps : Nat) (seen : List NodeId) (id : NodeId),
      (followForwardThen (followForward extra) steps seen id : Action Memory (List Node))
        = followForward (steps + extra) seen id := by
  intro steps
  induction steps with
  | zero => intro seen id; rw [Nat.zero_add]; rfl
  | succ steps ih =>
      intro seen id
      have hnext : (followForwardThen (followForward extra) steps : _ → _ → Action Memory _)
          = followForward (steps + extra) := funext₂ ih
      rw [Nat.succ_add, followForwardThen, hnext]
      rfl

theorem forwardChain_eq_followForward (m : Memory) (id : NodeId) {steps : Nat}
    (h : m.nodes.length < steps) :
    forwardChain id m = (followForward steps [] id : Action Memory (List Node)) m := by
  obtain ⟨extra, rfl⟩ := Nat.exists_eq_add_of_lt h
  have hsteps : m.nodes.length + extra + 1 = m.nodes.length + 1 + extra := by omega
  rw [hsteps, ← followForwardThen_followForward]
  exact (followForwardThen_eq (s := m) _ _ List.nodup_nil (List.nil_subset _)
    (Nat.lt_succ_self _)).symm

theorem sideBySide_forwardChain (hid : region id) :
    SideBySide (Beside region m₀ m₀') (SameEnd region)
      (forwardChain id : Action Memory (List Node)) (forwardChain id) := by
  intro m m' h
  have hle : m.nodes.length < m.nodes.length + m'.nodes.length + 1 := by omega
  have hle' : m'.nodes.length < m.nodes.length + m'.nodes.length + 1 := by omega
  rw [forwardChain_eq_followForward m id hle, forwardChain_eq_followForward m' id hle']
  exact sideBySide_followForward _ [] hid m m' h

/-- Two ids that are dereferenced side by side come to one and the same node. -/
theorem sideBySide_dereference (hid : region id) :
    SideBySide (Beside region m₀ m₀')
      (fun n n' => n' = n ∧ n.forward = none ∧ region n.id ∧ Stays region n)
      (dereference id : Action Memory Node) (dereference id) := by
  refine (sideBySide_forwardChain hid).bind fun chain chain' hchain => ?_
  obtain ⟨last, hlast, hlast', hnone, hseen⟩ := hchain
  rw [hlast, hlast']
  exact sideBySide_pure ⟨rfl, hnone, hseen.inside, hseen.stays⟩

/-! ### Writing -/

theorem Beside.setGeneration (h : Beside region m₀ m₀' m m') (owner : String)
    (generation generation' : Nat) :
    Beside region m₀ m₀' (m.setGeneration owner generation)
      (m'.setGeneration owner generation') :=
  ⟨h.alike, h.closed, h.kept, h.kept'⟩

/-- A node of the region is forwarded inside it. -/
theorem Beside.modifyNode (h : Beside region m₀ m₀' m m') (hid : region id) (x : Node)
    {target : NodeId} (htarget : region target) (arcs : List Arc) (generation generation' : Nat) :
    Beside region m₀ m₀' (m.modifyNode id (Update.forwarding x target arcs generation).applyTo)
      (m'.modifyNode id (Update.forwarding x target arcs generation').applyTo) where
  alike j hj := by
    rw [node?_modifyNode _ _ (Update.id_applyTo _), node?_modifyNode _ _ (Update.id_applyTo _)]
    have halike := h.alike j hj
    split
    · generalize m.node? j = y at halike
      generalize m'.node? j = y' at halike
      cases halike with
      | none => exact .none
      | some halike => exact .some (halike.forwarding x target arcs generation generation')
    · exact halike
  closed j n hj found := by
    rw [node?_modifyNode _ _ (Update.id_applyTo _)] at found
    split at found
    · obtain ⟨n₀, found₀, rfl⟩ := Option.map_eq_some_iff.mp found
      refine ⟨fun next hnext => ?_, (h.closed j n₀ hj found₀).arcs⟩
      cases hnext
      exact htarget
    · exact h.closed j n hj found
  kept j hj := by
    rw [node?_modifyNode _ _ (Update.id_applyTo _), if_neg (by rintro rfl; exact hj hid)]
    exact h.kept j hj
  kept' j hj := by
    rw [node?_modifyNode _ _ (Update.id_applyTo _), if_neg (by rintro rfl; exact hj hid)]
    exact h.kept' j hj

/-- Whether an update is taken does not depend on the stamps. -/
theorem Beside.takes_eq (h : Beside region m₀ m₀' m m') (hid : region id) {u u' : Update}
    (hu : u'.forward = u.forward) : m'.takes id u' = m.takes id u := by
  rw [takes, takes, hu]
  have halike := h.alike id hid
  generalize m.node? id = y at halike
  generalize m'.node? id = y' at halike
  cases halike with
  | none => rfl
  | some halike => rw [Option.any_some, Option.any_some, halike.forward_eq]

theorem Beside.isSome_node?_eq (h : Beside region m₀ m₀' m m') (hid : region id) :
    (m'.node? id).isSome = (m.node? id).isSome := by
  have halike := h.alike id hid
  generalize m.node? id = y at halike
  generalize m'.node? id = y' at halike
  cases halike <;> rfl

theorem sideBySide_update (hid : region id) (x : Node) {target : NodeId} (htarget : region target)
    (arcs : List Arc) (generation generation' : Nat) :
    SideBySide (Beside region m₀ m₀') (fun _ _ => True)
      (update id (Update.forwarding x target arcs generation) : Action Memory Unit)
      (update id (Update.forwarding x target arcs generation')) := by
  intro m m' h
  have htakes : m'.takes id (Update.forwarding x target arcs generation')
      = m.takes id (Update.forwarding x target arcs generation) := h.takes_eq hid rfl
  rw [update_eq, update_eq, htakes, h.isSome_node?_eq hid]
  split
  · exact ⟨.ok trivial, h.modifyNode hid x htarget arcs generation generation'⟩
  · split
    · exact ⟨.error _, h⟩
    · exact ⟨.error _, h⟩

end Memory

/-- What a forwarding is apart from its stamp: the node, where it points and how many arcs it
received. -/
def Forwarding.outline (f : Forwarding) : NodeId × NodeId × Nat :=
  (f.node, f.target, f.received)

namespace Run

variable {region : NodeId → Prop} {m₀ m₀' : Memory}

/-! ### Runs -/

/-- Two runs that opened the same pairs and wrote the same forward references, on stores that are
beside each other. -/
structure Beside (region : NodeId → Prop) (m₀ m₀' : Memory) (run run' : Run Memory) : Prop where
  store : Memory.Beside region m₀ m₀' run.store run'.store
  opened : run'.opened = run.opened
  forwarded : run'.forwarded.map Forwarding.outline = run.forwarded.map Forwarding.outline

/-- An action does on both runs alike. -/
abbrev Abreast (region : NodeId → Prop) (m₀ m₀' : Memory) (act : RunM Memory Unit) : Prop :=
  SideBySide (Beside region m₀ m₀') (fun _ _ => True) act act

theorem sideBySide_onStore {α : Type} {together : α → α → Prop} {act act' : Action Memory α}
    (h : SideBySide (Memory.Beside region m₀ m₀') together act act') :
    SideBySide (Beside region m₀ m₀') together (onStore act) (onStore act') := by
  intro run run' hrun
  have hends := h run.store run'.store hrun.store
  exact ⟨hends.1, hends.2, hrun.opened, hrun.forwarded⟩

theorem sideBySide_modify {f f' : Run Memory → Run Memory}
    (h : ∀ run run', Beside region m₀ m₀' run run' → Beside region m₀ m₀' (f run) (f' run')) :
    SideBySide (Beside region m₀ m₀') (fun _ _ => True) (modify f : RunM Memory Unit)
      (modify f') :=
  fun run run' hrun => ⟨.ok trivial, h run run' hrun⟩

/-- A node is forwarded on both sides. -/
theorem abreast_forwardInto {n : Node} {target : NodeId} (hn : region n.id)
    (htarget : region target) (arcs : List Arc) :
    Abreast region m₀ m₀' (forwardInto n target arcs) := by
  have hstamp : SideBySide (Memory.Beside region m₀ m₀') (fun _ _ => True)
      (nextGeneration n.owner : Action Memory Nat) (nextGeneration n.owner) :=
    fun m m' h => ⟨.ok trivial, h.setGeneration n.owner _ _⟩
  refine (sideBySide_onStore hstamp).bind fun generation generation' _ => ?_
  refine (sideBySide_onStore (Memory.sideBySide_update hn n htarget arcs generation
    generation')).bind fun _ _ _ => ?_
  refine sideBySide_modify fun run run' h => ⟨h.store, h.opened, ?_⟩
  rw [List.map_append, List.map_append, h.forwarded]
  rfl

section

variable {unify : NodeId → NodeId → RunM Memory Unit}
  (hrec : ∀ x y, region x → region y → Abreast region m₀ m₀' (unify x y))
include hrec

theorem abreast_unifyShared {ours : List Arc}
    (hours : ∀ arc ∈ ours, ∀ target, arc.value = .node target → region target) :
    ∀ {theirs : List Arc}, (∀ arc ∈ theirs, ∀ target, arc.value = .node target → region target) →
      Abreast region m₀ m₀' (unifyShared unify ours theirs) := by
  intro theirs
  induction theirs with
  | nil => intro _; exact sideBySide_pure trivial
  | cons arc rest ih =>
      intro htheirs
      obtain ⟨hhead, hrest⟩ := List.forall_mem_cons.mp htheirs
      rw [Abreast, unifyShared]
      cases hx : (Arcs.find? arc.label ours).bind (·.value.node?) with
      | none => exact ih hrest
      | some x =>
          cases hy : arc.value.node? with
          | none => exact ih hrest
          | some y =>
              obtain ⟨our, hour, hx⟩ := Option.bind_eq_some_iff.mp hx
              have hx := hours our (List.mem_of_find?_eq_some hour) x
                (ArcValue.node?_eq_some_iff.mp hx)
              have hy := hhead y (ArcValue.node?_eq_some_iff.mp hy)
              exact (hrec x y hx hy).bind fun _ _ _ => ih hrest

theorem abreast_unifyComplex {n k : Node} (hn : region n.id) (hk : region k.id)
    (hnstays : Memory.Stays region n) (hkstays : Memory.Stays region k) :
    Abreast region m₀ m₀' (unifyComplex unify n k) := by
  rw [Abreast, unifyComplex]
  split
  · exact abreast_forwardInto hn hk _
  · have hshared : ∀ arc ∈ Arcs.intersect n.arcs k.arcs, ∀ target, arc.value = .node target →
        region target := fun arc harc => hkstays.arcs arc (List.mem_of_mem_filter harc)
    have hopen : Abreast region m₀ m₀'
        (modify fun run => { run with opened := (n.id, k.id) :: run.opened }) :=
      sideBySide_modify fun run run' h => ⟨h.store, congrArg (List.cons _) h.opened, h.forwarded⟩
    refine hopen.bind fun _ _ _ => ?_
    refine (abreast_unifyShared hrec hnstays.arcs hshared).bind fun _ _ _ => ?_
    refine (sideBySide_onStore (Memory.sideBySide_require hn)).bind fun x x' hx => ?_
    refine (sideBySide_onStore (Memory.sideBySide_require hk)).bind fun y y' hy => ?_
    rw [Node.isSuperseded, Node.isSuperseded, Node.isSuperseded, Node.isSuperseded,
      hx.alike.forward_eq, hy.alike.forward_eq]
    by_cases hmerged : (x.forward.isSome || y.forward.isSome) = true
    · rw [if_pos hmerged, if_pos hmerged, hx.alike.id_eq, hy.alike.id_eq]
      exact hrec x.id y.id hx.inside hy.inside
    · -- What was not forwarded is the same on both sides.
      rw [if_neg hmerged, if_neg hmerged]
      simp only [Bool.or_eq_true, not_or, Option.not_isSome_iff_eq_none] at hmerged
      obtain rfl := hx.alike.eq_of_forward_eq_none hmerged.1
      obtain rfl := hy.alike.eq_of_forward_eq_none hmerged.2
      exact abreast_forwardInto hx.inside hy.inside _

theorem abreast_unifyStep {a b : NodeId} (ha : region a) (hb : region b) :
    Abreast region m₀ m₀' (unifyStep unify a b) := by
  refine (sideBySide_onStore (Memory.sideBySide_dereference ha)).bind fun n n' hn => ?_
  refine (sideBySide_onStore (Memory.sideBySide_dereference hb)).bind fun k k' hk => ?_
  obtain ⟨rfl, -, hn, hnstays⟩ := hn
  obtain ⟨rfl, -, hk, hkstays⟩ := hk
  have hlook : SideBySide (Beside region m₀ m₀') (fun now now' => now'.opened = now.opened)
      (getThe (Run Memory) : RunM Memory (Run Memory)) (getThe (Run Memory)) :=
    fun run run' h => ⟨.ok h.opened, h⟩
  refine hlook.bind fun now now' hopened => ?_
  rw [hopened]
  by_cases hknown : n'.id = k'.id ∨ (n'.id, k'.id) ∈ now.opened
  · rw [if_pos hknown]
    exact sideBySide_pure trivial
  rw [if_neg hknown]
  cases n'.isLeaf with
  | true =>
      cases k'.isLeaf with
      | true =>
          simp only
          split
          · exact sideBySide_throw _
          · exact sideBySide_pure trivial
      | false => exact abreast_forwardInto hn hk []
  | false =>
      cases k'.isLeaf with
      | true => exact abreast_forwardInto hk hn []
      | false => exact abreast_unifyComplex hrec hn hk hnstays hkstays

end

theorem abreast_unifyWithin (depth : Nat) {a b : NodeId} (ha : region a) (hb : region b) :
    Abreast region m₀ m₀' (unifyWithin depth a b) := by
  induction depth generalizing a b with
  | zero => exact sideBySide_throw _
  | succ depth ih => exact abreast_unifyStep (fun _ _ hx hy => ih hx hy) ha hb

/-! ### A common depth -/

/-- More depth than a unification needs makes no difference. -/
theorem unifyThen_unifyWithin (extra depth : Nat) :
    (unifyThen (unifyWithin extra) depth : NodeId → NodeId → RunM Memory Unit)
      = unifyWithin (depth + extra) := by
  induction depth with
  | zero => rw [Nat.zero_add]; rfl
  | succ depth ih =>
      rw [Nat.succ_add, unifyThen, ih]
      rfl

theorem unify_eq_unifyWithin (m : Memory) (a b : NodeId) {depth : Nat}
    (h : m.nodes.length * m.nodes.length < depth) :
    Run.unify m a b = unifyWithin depth a b { store := m } := by
  obtain ⟨extra, rfl⟩ := Nat.exists_eq_add_of_lt h
  have hdepth : m.nodes.length * m.nodes.length + extra + 1
      = m.nodes.length * m.nodes.length + 1 + extra := by omega
  rw [hdepth, ← unifyThen_unifyWithin]
  exact unifyWithin_eq _ _ (ready_start m)

variable {m m' : Memory} {a b : NodeId}

/-- Two unifications of the same ids, on stores that agree in the region. -/
theorem beside_unify (hclosed : m.Closed region) (ha : region a) (hb : region b)
    (hagree : ∀ id, region id → m'.node? id = m.node? id) :
    Matches (fun _ _ => True) (Run.unify m a b).1 (Run.unify m' a b).1 ∧
      Beside region m m' (Run.unify m a b).2 (Run.unify m' a b).2 := by
  have hle : m.nodes.length * m.nodes.length
      < m.nodes.length * m.nodes.length + m'.nodes.length * m'.nodes.length + 1 := by omega
  have hle' : m'.nodes.length * m'.nodes.length
      < m.nodes.length * m.nodes.length + m'.nodes.length * m'.nodes.length + 1 := by omega
  rw [unify_eq_unifyWithin m a b hle, unify_eq_unifyWithin m' a b hle']
  exact abreast_unifyWithin _ ha hb _ _ ⟨Memory.beside_start hclosed hagree, rfl, rfl⟩

end Run

/-- The outcome of a unification apart from the stamps. -/
def outcome (r : Except EngineError (List Forwarding)) :
    Except EngineError (List (NodeId × NodeId × Nat)) :=
  r.map (List.map Forwarding.outline)

namespace Memory

variable {m m' : Memory} {region region' : NodeId → Prop} {a b c d : NodeId}

theorem unifyCore_beside (hclosed : m.Closed region) (ha : region a) (hb : region b)
    (hagree : ∀ id, region id → m'.node? id = m.node? id) :
    outcome (unifyCore a b m').1 = outcome (unifyCore a b m).1 ∧
      Beside region m m' (unifyCore a b m).2 (unifyCore a b m').2 := by
  obtain ⟨hmatches, hrun⟩ := Run.beside_unify hclosed ha hb hagree
  rcases hleft : Run.unify m a b with ⟨r, run⟩
  rcases hright : Run.unify m' a b with ⟨r', run'⟩
  rw [hleft, hright] at hmatches hrun
  rw [unifyCore_eq hleft, unifyCore_eq hright]
  refine ⟨?_, hrun.store⟩
  cases hmatches with
  | error e => rfl
  | ok _ => exact congrArg Except.ok hrun.forwarded

/-- A unification changes nothing outside its region. -/
theorem unifyCore_kept (hclosed : m.Closed region) (ha : region a) (hb : region b) {id : NodeId}
    (hid : ¬ region id) : (unifyCore a b m).2.node? id = m.node? id :=
  (unifyCore_beside hclosed ha hb fun _ _ => rfl).2.kept id hid

/-- It makes no difference which of two unifications comes first, if their regions lie apart. -/
theorem unifyCore_commute (hclosed : m.Closed region) (ha : region a) (hb : region b)
    (hclosed' : m.Closed region') (hc : region' c) (hd : region' d)
    (happart : ∀ id, region id → ¬ region' id) :
    outcome (unifyCore a b (unifyCore c d m).2).1 = outcome (unifyCore a b m).1 ∧
      outcome (unifyCore c d (unifyCore a b m).2).1 = outcome (unifyCore c d m).1 ∧
      ∀ id, Option.Rel Node.Alike ((unifyCore c d (unifyCore a b m).2).2.node? id)
        ((unifyCore a b (unifyCore c d m).2).2.node? id) := by
  obtain ⟨hleft, hbeside⟩ := unifyCore_beside hclosed ha hb fun id hid =>
    unifyCore_kept hclosed' hc hd (happart id hid)
  obtain ⟨hright, hbeside'⟩ := unifyCore_beside hclosed' hc hd fun id hid =>
    unifyCore_kept hclosed ha hb fun hid' => happart id hid' hid
  refine ⟨hleft, hright, fun id => ?_⟩
  by_cases hid : region id
  · -- The second unification leaves what the first one did to its region.
    rw [hbeside'.kept' id (happart id hid)]
    exact hbeside.alike id hid
  · rw [hbeside.kept' id hid]
    by_cases hid' : region' id
    · have halike := hbeside'.alike id hid'
      generalize (unifyCore c d m).2.node? id = x at halike ⊢
      generalize (unifyCore c d (unifyCore a b m).2).2.node? id = y at halike ⊢
      cases halike with
      | none => exact .none
      | some halike => exact .some halike.symm
    · rw [hbeside'.kept' id hid', hbeside'.kept id hid', hbeside.kept id hid]
      cases m.node? id with
      | none => exact .none
      | some n => exact .some (.refl n)

end Memory

variable {σ : Type} [NodeStore σ] [Backed σ]

/-- A unification writes only nodes that its ids lead to; its outcome, or its error, is the same in
every state that agrees on these; and where the nodes that two pairs lead to have none in common,
the two are unified with the same outcomes in either order, and end with the same nodes but for
the stamps of those that were forwarded. -/
theorem unification_is_local (hnever : ∀ e, ¬ fails σ e) (s : σ) (a b : NodeId) :
    (∀ id, ¬ (contents s).Reach a b id →
      (contents (unifyCore a b s).2).node? id = (contents s).node? id) ∧
    (∀ s' : σ, (∀ id, (contents s).Reach a b id → (contents s').node? id = (contents s).node? id) →
      outcome (unifyCore a b s').1 = outcome (unifyCore a b s).1) ∧
    (∀ c d, (∀ id, (contents s).Reach a b id → ¬ (contents s).Reach c d id) →
      outcome (unifyCore a b (unifyCore c d s).2).1 = outcome (unifyCore a b s).1 ∧
        outcome (unifyCore c d (unifyCore a b s).2).1 = outcome (unifyCore c d s).1 ∧
        ∀ id, Option.Rel Node.Alike ((contents (unifyCore c d (unifyCore a b s).2).2).node? id)
          ((contents (unifyCore a b (unifyCore c d s).2).2).node? id)) := by
  have hdata : ∀ (x y : NodeId) (s : σ), (unifyCore x y s).1 = (unifyCore x y (contents s)).1 ∧
      contents (unifyCore x y s).2 = (unifyCore x y (contents s)).2 := by
    intro x y s
    have h := (translates_contents hnever).unifyCore x y s
    exact ⟨(congrArg Prod.fst h).symm, (congrArg Prod.snd h).symm⟩
  have hclosed := (contents s).closed_reach a b
  refine ⟨fun id hid => ?_, fun s' hagree => ?_, fun c d happart => ?_⟩
  · rw [(hdata a b s).2]
    exact Memory.unifyCore_kept hclosed .left .right hid
  · rw [(hdata a b s').1, (hdata a b s).1]
    exact (Memory.unifyCore_beside hclosed .left .right hagree).1
  · have hcommute := Memory.unifyCore_commute hclosed .left .right ((contents s).closed_reach c d)
      .left .right happart
    rwa [← (hdata a b s).2, ← (hdata c d s).2, ← (hdata a b s).1, ← (hdata c d s).1,
      ← (hdata _ _ _).1, ← (hdata _ _ _).1, ← (hdata _ _ _).2, ← (hdata _ _ _).2] at hcommute

/-- Two leaves, each of them referred to by a complex node. -/
def twoPairs : Memory :=
  { nodes := [.leaf ⟨1⟩ "ann" "x", .complex ⟨2⟩ "ann" [⟨"next", .node ⟨1⟩⟩],
      .leaf ⟨3⟩ "ann" "y", .complex ⟨4⟩ "ann" [⟨"next", .node ⟨3⟩⟩]] }

theorem apart_twoPairs :
    ∀ id, twoPairs.Reach ⟨1⟩ ⟨2⟩ id → ¬ twoPairs.Reach ⟨3⟩ ⟨4⟩ id := by
  have hfirst : twoPairs.Closed fun id => id = ⟨1⟩ ∨ id = ⟨2⟩ := by
    rintro id n (rfl | rfl) found <;> cases found <;> constructor <;>
      simp [Node.leaf, Node.complex, Arcs.dedup, Arcs.union, Arcs.insertNew, Arcs.labels]
  have hsecond : twoPairs.Closed fun id => id = ⟨3⟩ ∨ id = ⟨4⟩ := by
    rintro id n (rfl | rfl) found <;> cases found <;> constructor <;>
      simp [Node.leaf, Node.complex, Arcs.dedup, Arcs.union, Arcs.insertNew, Arcs.labels]
  intro id h h'
  rcases h.mem hfirst (.inl rfl) (.inr rfl) with rfl | rfl
  · exact absurd (h'.mem hsecond (.inl rfl) (.inr rfl)) (by decide)
  · exact absurd (h'.mem hsecond (.inl rfl) (.inr rfl)) (by decide)

/-- Each pair is unified as if the other one were not there, but for the stamp. -/
theorem unification_is_local_twoPairs :
    (∀ e, ¬ fails Memory e) ∧
      outcome (unifyCore ⟨1⟩ ⟨2⟩ twoPairs).1 = .ok [(⟨1⟩, ⟨2⟩, 0)] ∧
      outcome (unifyCore ⟨1⟩ ⟨2⟩ (unifyCore ⟨3⟩ ⟨4⟩ twoPairs).2).1 = .ok [(⟨1⟩, ⟨2⟩, 0)] ∧
      ((unifyCore ⟨1⟩ ⟨2⟩ twoPairs).2.node? ⟨1⟩).map Node.generation = some 11 ∧
      ((unifyCore ⟨1⟩ ⟨2⟩ (unifyCore ⟨3⟩ ⟨4⟩ twoPairs).2).2.node? ⟨1⟩).map Node.generation
        = some 12 := by
  have hnever : ∀ e, ¬ fails Memory e := fun _ he => he
  have hfirst : outcome (unifyCore ⟨1⟩ ⟨2⟩ twoPairs).1 = .ok [(⟨1⟩, ⟨2⟩, 0)] := by cbv
  obtain ⟨hsame, -⟩ := (unification_is_local hnever twoPairs ⟨1⟩ ⟨2⟩).2.2 ⟨3⟩ ⟨4⟩ apart_twoPairs
  exact ⟨hnever, hfirst, hsame.trans hfirst, by cbv, by cbv⟩

end Ideas
