import Mathlib.Algebra.BigOperators.Group.Multiset.Basic
import Mathlib.Tactic.Abel
import WgoTailscale.Lib.Transition

/-!
# Threads with call stacks

A `Machine` runs any number of threads over one shared state. A thread is a stack of frames, the
top one first; executing the top frame is one atomic step, which changes the shared state, replaces
the frame by the calls it makes and may spawn threads. Nondeterminism is a choice that the step is
given. Beside the threads there is an environment, which changes the shared state, and new threads
may be started from outside.

Which frames exist, and not which thread they belong to, is all that the invariants of such a
machine speak about, so `Machine.invariant` is stated over the shared state and the multiset of all
frames. `Machine.Conserves` is the rule behind every lock and every counter: if each step moves as
much weight between the frames and the shared state as it takes, the frames always carry exactly
what the state records. Where it does matter that a frame waits for the one above it to return,
`Reaches.stands` turns the order of the stacks into a condition on the steps, which invariants of
the frames may then use.
-/

/-- What executing one frame leads to. -/
structure Outcome (σ φ : Type) where
  /-- The shared state afterwards. -/
  state : σ
  /-- The frames that replace the executed one, the first of them on top. -/
  calls : List φ := []
  /-- The stacks of new threads. -/
  spawned : List (List φ) := []

/-- The frames an outcome adds. -/
def Outcome.frames {σ φ : Type} (o : Outcome σ φ) : Multiset φ :=
  (o.calls : Multiset φ) + (o.spawned.flatten : Multiset φ)

section
variable {σ φ : Type} (s : σ) (f g : φ) (R : Multiset φ)

theorem Outcome.frames_none : ({ state := s } : Outcome σ φ).frames + R = R := by
  simp [Outcome.frames]

theorem Outcome.frames_call :
    ({ state := s, calls := [f] } : Outcome σ φ).frames + R = f ::ₘ R := by
  simp [Outcome.frames]

theorem Outcome.frames_calls :
    ({ state := s, calls := [f, g] } : Outcome σ φ).frames + R = f ::ₘ g ::ₘ R := by
  simp [Outcome.frames, ← Multiset.cons_coe]

end

/-- A program for threads over a shared state. -/
structure Machine (σ φ χ ε : Type) where
  /-- One atomic step: the frame, the choice and the shared state. -/
  exec : φ → χ → σ → Option (Outcome σ φ)
  /-- What the environment may do to the shared state. -/
  env : ε → σ → Option σ
  /-- May a new thread be started with this frame? -/
  entry : φ → σ → Bool

/-- The shared state and the stacks of the threads. -/
structure Config (σ φ : Type) where
  shared : σ
  threads : List (List φ) := []

/-- One step of a machine. -/
inductive Act (φ χ ε : Type) where
  /-- Thread `t` executes its top frame. -/
  | run (t : Nat) (c : χ)
  /-- A thread is started. -/
  | start (f : φ)
  /-- The environment acts. -/
  | env (e : ε)

namespace Config

variable {σ φ : Type} (cfg : Config σ φ)

/-- The top frame of a thread. -/
def top (t : Nat) : Option φ := (cfg.threads[t]?).bind List.head?

/-- All frames. -/
def frames : Multiset φ := (cfg.threads.flatten : List φ)

/-- All frames but the top frame of thread `t`. -/
def others (t : Nat) : Multiset φ :=
  (((cfg.threads.take t).flatten ++ (cfg.threads[t]?.getD []).tail ++
    (cfg.threads.drop (t + 1)).flatten : List φ) : Multiset φ)

/-- The configuration after thread `t` executed its top frame. -/
def resume (t : Nat) (o : Outcome σ φ) : Config σ φ where
  shared := o.state
  threads := cfg.threads.set t (o.calls ++ (cfg.threads[t]?.getD []).tail) ++ o.spawned

variable {cfg}

theorem top_eq_some {t : Nat} {f : φ} (h : cfg.top t = some f) :
    ∃ rest, cfg.threads[t]? = some (f :: rest) := by
  obtain ⟨stack, hstack, hhead⟩ := Option.bind_eq_some_iff.mp h
  cases stack with
  | nil => cases hhead
  | cons g rest =>
    cases hhead
    exact ⟨rest, hstack⟩

theorem frames_eq {t : Nat} {f : φ} (h : cfg.top t = some f) :
    cfg.frames = f ::ₘ cfg.others t := by
  obtain ⟨rest, hrest⟩ := top_eq_some h
  obtain ⟨hlt, hget⟩ := List.getElem?_eq_some_iff.mp hrest
  have hsplit : cfg.threads = cfg.threads.take t ++ (f :: rest) :: cfg.threads.drop (t + 1) := by
    rw [← hget, List.cons_getElem_drop_succ, List.take_append_drop]
  have hflat : cfg.threads.flatten =
      (cfg.threads.take t).flatten ++ (f :: (rest ++ (cfg.threads.drop (t + 1)).flatten)) := by
    conv_lhs => rw [hsplit]
    simp
  simp only [frames, others, hrest, Option.getD_some, List.tail_cons]
  rw [hflat, Multiset.cons_coe, List.append_assoc]
  exact Quot.sound List.perm_middle

theorem frames_resume {t : Nat} {f : φ} (h : cfg.top t = some f) (o : Outcome σ φ) :
    (cfg.resume t o).frames = o.frames + cfg.others t := by
  obtain ⟨rest, hrest⟩ := top_eq_some h
  obtain ⟨hlt, -⟩ := List.getElem?_eq_some_iff.mp hrest
  simp only [frames, resume, others, Outcome.frames, hrest, Option.getD_some, List.tail_cons,
    List.set_eq_take_append_cons_drop, hlt, if_true, List.flatten_append, List.flatten_cons,
    ← Multiset.coe_add]
  abel

end Config

namespace Machine

variable {σ φ χ ε : Type} (M : Machine σ φ χ ε)

/-- One step of the machine. -/
def step (cfg : Config σ φ) : Act φ χ ε → Option (Config σ φ)
  | .run t c => (cfg.top t).bind fun f => (M.exec f c cfg.shared).map fun o => cfg.resume t o
  | .start f =>
    if M.entry f cfg.shared then some { cfg with threads := cfg.threads ++ [[f]] } else none
  | .env e => (M.env e cfg.shared).map fun s => { cfg with shared := s }

/-- The machine as a transition system. -/
def system : System (Config σ φ) (Act φ χ ε) := ⟨M.step⟩

variable {M}

/-- What a step can be. -/
theorem step_cases {cfg cfg' : Config σ φ} {a : Act φ χ ε} (h : M.step cfg a = some cfg') :
    (∃ t c f o, a = .run t c ∧ cfg.top t = some f ∧ M.exec f c cfg.shared = some o ∧
      cfg' = cfg.resume t o) ∨
    (∃ f, a = .start f ∧ M.entry f cfg.shared = true ∧
      cfg' = { cfg with threads := cfg.threads ++ [[f]] }) ∨
    (∃ e s, a = .env e ∧ M.env e cfg.shared = some s ∧ cfg' = { cfg with shared := s }) := by
  cases a with
  | run t c =>
    obtain ⟨f, hf, ho⟩ := Option.bind_eq_some_iff.mp h
    obtain ⟨o, hexec, rfl⟩ := Option.map_eq_some_iff.mp ho
    exact .inl ⟨t, c, f, o, rfl, hf, hexec, rfl⟩
  | start f =>
    simp only [step] at h
    split at h
    · next hentry =>
      cases h
      exact .inr (.inl ⟨f, rfl, hentry, rfl⟩)
    · cases h
  | env e =>
    obtain ⟨s, hs, rfl⟩ := Option.map_eq_some_iff.mp h
    exact .inr (.inr ⟨e, s, rfl, hs, rfl⟩)

theorem frames_start (cfg : Config σ φ) (f : φ) :
    Config.frames { cfg with threads := cfg.threads ++ [[f]] } = f ::ₘ cfg.frames := by
  simp only [Config.frames, List.flatten_append, List.flatten_singleton]
  rw [← Multiset.coe_add, add_comm]
  rfl

/-- Conditions on the steps of a run: on executing a frame, given the other frames; on starting a
thread; on the environment. -/
structure Policy (σ φ χ ε : Type) where
  run : σ → φ → Multiset φ → χ → Prop := fun _ _ _ _ => True
  start : σ → φ → Prop := fun _ _ => True
  env : σ → ε → Prop := fun _ _ => True

/-- The policy that admits every step. -/
abbrev Policy.any : Policy σ φ χ ε := {}

/-- The steps that a policy admits. -/
def Policy.Admits (p : Policy σ φ χ ε) (cfg : Config σ φ) : Act φ χ ε → Prop
  | .run t c => ∀ f ∈ cfg.top t, p.run cfg.shared f (cfg.others t) c
  | .start f => p.start cfg.shared f
  | .env e => p.env cfg.shared e

instance (p : Policy σ φ χ ε) [∀ s f R c, Decidable (p.run s f R c)]
    [∀ s f, Decidable (p.start s f)] [∀ s e, Decidable (p.env s e)] (cfg : Config σ φ)
    (a : Act φ χ ε) : Decidable (p.Admits cfg a) :=
  match a with
  | .run _ _ => inferInstanceAs (Decidable (∀ _ ∈ _, _))
  | .start _ => inferInstanceAs (Decidable (p.start _ _))
  | .env _ => inferInstanceAs (Decidable (p.env _ _))

/-- An invariant of the shared state and the frames, under a policy. -/
structure Keeps (M : Machine σ φ χ ε) (p : Policy σ φ χ ε) (I : σ → Multiset φ → Prop) : Prop where
  run : ∀ s f R c o, I s (f ::ₘ R) → p.run s f R c → M.exec f c s = some o →
    I o.state (o.frames + R)
  start : ∀ s F f, I s F → p.start s f → M.entry f s = true → I s (f ::ₘ F)
  env : ∀ s s' F e, I s F → p.env s e → M.env e s = some s' → I s' F

/-- The states and frames that a policy lets the machine reach. -/
def Reaches (M : Machine σ φ χ ε) (p : Policy σ φ χ ε) (cfg cfg' : Config σ φ) : Prop :=
  M.system.Reach p.Admits cfg cfg'

variable {p : Policy σ φ χ ε} {I J : σ → Multiset φ → Prop} {cfg cfg' : Config σ φ} {stack : List φ}
variable {f : φ} {F R : Multiset φ}

/-- The invariant rule. -/
theorem Keeps.invariant (hI : M.Keeps p I) (h : M.Reaches p cfg cfg')
    (hinit : I cfg.shared cfg.frames) : I cfg'.shared cfg'.frames := by
  refine System.Reach.invariant (I := fun cfg => I cfg.shared cfg.frames) h hinit ?_
  intro cfg cfg' a hcfg hp hstep
  rcases step_cases hstep with ⟨t, c, f, o, rfl, hf, ho, rfl⟩ | ⟨f, rfl, hf, rfl⟩ |
    ⟨e, s, rfl, hs, rfl⟩
  · rw [Config.frames_resume hf]
    rw [Config.frames_eq hf] at hcfg
    exact hI.run _ _ _ _ _ hcfg (hp f hf) ho
  · rw [frames_start]
    exact hI.start _ _ _ hcfg hp hf
  · exact hI.env _ _ _ _ hcfg hp hs

theorem Policy.admits_any (cfg : Config σ φ) (a : Act φ χ ε) :
    (Policy.any : Policy σ φ χ ε).Admits cfg a := by
  cases a with
  | run t c => exact fun _ _ => trivial
  | start | env => trivial

/-- What every step keeps, any step keeps. -/
theorem Keeps.step (hI : M.Keeps (Policy.any : Policy σ φ χ ε) I) {a : Act φ χ ε}
    (hstep : M.step cfg a = some cfg') (hcfg : I cfg.shared cfg.frames) :
    I cfg'.shared cfg'.frames :=
  hI.invariant (.step .refl (Policy.admits_any cfg a) hstep) hcfg

/-- What an invariant implies holds in every state that a run visits, if the policy admits its
steps. -/
theorem Keeps.visits_of_meets {Q : Config σ φ → Prop} (hI : M.Keeps p I)
    (hQ : ∀ cfg, I cfg.shared cfg.frames → Q cfg) (hinit : I cfg.shared cfg.frames)
    {acts : List (Act φ χ ε)} (h : M.system.Meets p.Admits cfg acts) : M.system.Visits Q cfg acts :=
  System.visits_of_meets (J := fun cfg => I cfg.shared cfg.frames)
    (fun _ _ _ hcfg hp hstep => hI.invariant (.step .refl hp hstep) hcfg) hQ hinit h

/-- What an invariant implies holds in every state that a run visits. -/
theorem Keeps.visits {Q : Config σ φ → Prop} (hI : M.Keeps (Policy.any : Policy σ φ χ ε) I)
    (hQ : ∀ cfg, I cfg.shared cfg.frames → Q cfg) (hinit : I cfg.shared cfg.frames)
    (acts : List (Act φ χ ε)) : M.system.Visits Q cfg acts := by
  exact System.visits_of_invariant (J := fun cfg => I cfg.shared cfg.frames)
    (fun _ _ _ hcfg hstep => hI.step hstep hcfg) hQ hinit acts

/-- The invariant rule with invariants already known. -/
theorem Keeps.and (hJ : M.Keeps p J)
    (hI : M.Keeps { run := fun s f R c => p.run s f R c ∧ J s (f ::ₘ R)
                    start := p.start
                    env := p.env } I) : M.Keeps p fun s F => J s F ∧ I s F where
  run s f R c o h hp ho := ⟨hJ.run s f R c o h.1 hp ho, hI.run s f R c o h.2 ⟨hp, h.1⟩ ho⟩
  start s F f h hp hf := ⟨hJ.start s F f h.1 hp hf, hI.start s F f h.2 hp hf⟩
  env s s' F e h hp he := ⟨hJ.env s s' F e h.1 hp he, hI.env s s' F e h.2 hp he⟩

/-- What a weaker policy keeps, a stronger one keeps. -/
theorem Keeps.mono {q : Policy σ φ χ ε} (hI : M.Keeps p I)
    (hrun : ∀ s f R c, q.run s f R c → p.run s f R c) (hstart : ∀ s f, q.start s f → p.start s f)
    (henv : ∀ s e, q.env s e → p.env s e) : M.Keeps q I where
  run s f R c o h hp := hI.run s f R c o h (hrun s f R c hp)
  start s F f h hp := hI.start s F f h (hstart s f hp)
  env s s' F e h hp := hI.env s s' F e h (henv s e hp)

/-- An invariant that needs another one for its steps. -/
theorem Keeps.known (hJ : M.Keeps p J) (hI : M.Keeps { run := fun s f R _ => J s (f ::ₘ R) } I) :
    M.Keeps p fun s F => J s F ∧ I s F :=
  hJ.and (hI.mono (fun _ _ _ _ h => h.2) (fun _ _ _ => trivial) fun _ _ _ => trivial)

/-- Two invariants side by side. -/
theorem Keeps.both (hI : M.Keeps p I) (hJ : M.Keeps p J) : M.Keeps p fun s F => I s F ∧ J s F where
  run s f R c o h hp ho := ⟨hI.run s f R c o h.1 hp ho, hJ.run s f R c o h.2 hp ho⟩
  start s F f h hp hf := ⟨hI.start s F f h.1 hp hf, hJ.start s F f h.2 hp hf⟩
  env s s' F e h hp he := ⟨hI.env s s' F e h.1 hp he, hJ.env s s' F e h.2 hp he⟩

/-- An invariant in other words. -/
theorem Keeps.congr (hI : M.Keeps p I) (h : ∀ s F, J s F ↔ I s F) : M.Keeps p J := by
  have heq : J = I := funext fun s => funext fun F => propext (h s F)
  rw [heq]
  exact hI

/-! ## One thread -/

/-- The weight the frames carry. -/
def weightOf (weight : φ → Nat) (F : Multiset φ) : Nat := (F.map weight).sum

@[simp] theorem weightOf_cons (weight : φ → Nat) (f : φ) (F : Multiset φ) :
    weightOf weight (f ::ₘ F) = weight f + weightOf weight F := by simp [weightOf]

@[simp] theorem weightOf_add (weight : φ → Nat) (F G : Multiset φ) :
    weightOf weight (F + G) = weightOf weight F + weightOf weight G := by simp [weightOf]

theorem weight_le_of_mem {weight : φ → Nat} (h : f ∈ F) : weight f ≤ weightOf weight F := by
  obtain ⟨R, rfl⟩ := Multiset.exists_cons_of_mem h
  simp

/-- The weight of an outcome's frames. -/
def Outcome.weight (weight : φ → Nat) (o : Outcome σ φ) : Nat :=
  (o.calls.map weight).sum + ((o.spawned.flatten).map weight).sum

theorem weightOf_frames (weight : φ → Nat) (o : Outcome σ φ) :
    weightOf weight o.frames = Outcome.weight weight o := by
  simp [weightOf, Outcome.frames, Outcome.weight]

@[simp] theorem weight_call (weight : φ → Nat) (s : σ) (g : φ) :
    Outcome.weight weight ({ state := s, calls := [g] } : Outcome σ φ) = weight g := rfl

/-- Frames without weight. -/
theorem weightOf_eq_zero {weight : φ → Nat} (h : ∀ g ∈ F, weight g = 0) :
    weightOf weight F = 0 := by
  refine Multiset.sum_eq_zero fun n hn => ?_
  obtain ⟨g, hg, rfl⟩ := Multiset.mem_map.mp hn
  exact h g hg

theorem weight_eq_zero {weight : φ → Nat} {o : Outcome σ φ} (h : ∀ g ∈ o.frames, weight g = 0) :
    Outcome.weight weight o = 0 := by
  rw [← weightOf_frames]
  exact weightOf_eq_zero h

/-- A step moves weight between the frames and the level of the state. -/
theorem weightOf_step {weight : φ → Nat} {o : Outcome σ φ} {n n' : Nat}
    (h : weightOf weight (f ::ₘ R) = n) (ho : Outcome.weight weight o + n = n' + weight f) :
    weightOf weight (o.frames + R) = n' := by
  rw [weightOf_cons] at h
  rw [weightOf_add, weightOf_frames]
  omega

/-- A weight on frames and a level of the shared state that every step conserves. -/
structure Conserves (M : Machine σ φ χ ε) (weight : φ → Nat) (level : σ → Nat) : Prop where
  run : ∀ f c s o, weight f ≤ level s → M.exec f c s = some o →
    Outcome.weight weight o + level s = level o.state + weight f
  start : ∀ f s, M.entry f s = true → weight f = 0
  env : ∀ e s s', M.env e s = some s' → level s' = level s

/-- The frames carry exactly the level that the state records. -/
theorem Conserves.keeps {weight : φ → Nat} {level : σ → Nat} (h : M.Conserves weight level)
    (p : Policy σ φ χ ε) : M.Keeps p fun s F => weightOf weight F = level s where
  run s f R c o hI _ ho := by
    have hle : weight f ≤ level s := hI ▸ weight_le_of_mem (Multiset.mem_cons_self f R)
    exact weightOf_step hI (h.run f c s o hle ho)
  start s F f hI _ hf := by rw [weightOf_cons, h.start f s hf, Nat.zero_add, hI]
  env s s' F e hI _ he := by rw [h.env e s s' he, hI]

/-- Where the state records at most one, a frame that carries one carries all. -/
theorem weight_eq_zero_of_holder {weight : φ → Nat} {n : Nat} (h : weightOf weight (f ::ₘ R) = n)
    (hn : n ≤ 1) (hf : weight f = 1) : ∀ g ∈ R, weight g = 0 := by
  intro g hg
  have hle : weight g ≤ weightOf weight R := weight_le_of_mem hg
  rw [weightOf_cons] at h
  omega

/-- A lock that a frame holds is taken, and no other frame holds it. -/
theorem weight_of_locked {weight : φ → Nat} {locked : Bool}
    (h : weightOf weight (f ::ₘ R) = locked.toNat) (hf : weight f = 1) :
    locked = true ∧ ∀ g ∈ R, weight g = 0 := by
  refine ⟨?_, weight_eq_zero_of_holder h (Bool.toNat_le _) hf⟩
  rw [weightOf_cons, hf] at h
  cases locked with
  | true => rfl
  | false =>
    rw [Bool.toNat_false] at h
    omega

/-- A lock that is free is held by no frame. -/
theorem weight_of_free {weight : φ → Nat} {locked : Bool} (h : weightOf weight F = locked.toNat)
    (hfree : locked = false) : ∀ g ∈ F, weight g = 0 := by
  intro g hg
  have hle : weight g ≤ weightOf weight F := weight_le_of_mem hg
  rw [h, hfree, Bool.toNat_false] at hle
  exact Nat.le_zero.mp hle

/-! ## Stacks -/

/-- What every step keeps of the stacks, a run keeps. -/
theorem Reaches.stacks {P : List φ → Prop} (h : M.Reaches p cfg cfg')
    (hinit : ∀ stack ∈ cfg.threads, P stack)
    (hrun : ∀ s f c o rest, M.exec f c s = some o → P (f :: rest) →
      P (o.calls ++ rest) ∧ ∀ stack ∈ o.spawned, P stack)
    (hstart : ∀ s f, M.entry f s = true → P [f]) : ∀ stack ∈ cfg'.threads, P stack := by
  refine System.Reach.invariant (I := fun cfg => ∀ stack ∈ cfg.threads, P stack) h hinit ?_
  intro cfg cfg' a hcfg _ hstep stack hstack
  rcases step_cases hstep with ⟨t, c, f, o, rfl, hf, ho, rfl⟩ | ⟨f, rfl, hf, rfl⟩ |
    ⟨e, s, rfl, -, rfl⟩
  · obtain ⟨rest, hrest⟩ := Config.top_eq_some hf
    obtain ⟨hcalls, hspawned⟩ := hrun _ f c o rest ho (hcfg _ (List.mem_of_getElem? hrest))
    rcases List.mem_append.mp hstack with hold | hnew
    · rcases List.mem_or_eq_of_mem_set hold with hmem | rfl
      · exact hcfg stack hmem
      · rw [hrest]
        exact hcalls
    · exact hspawned stack hnew
  · rcases List.mem_append.mp hstack with hold | hnew
    · exact hcfg stack hold
    · exact List.mem_singleton.mp hnew ▸ hstart _ f hf
  · exact hcfg stack hstack

/-- Every frame that needs another one stands directly on it. -/
def Stands (needs : φ → Option φ) : List φ → Prop
  | [] => True
  | f :: rest => (∀ g, needs f = some g → rest.head? = some g) ∧ Stands needs rest

section
variable {needs : φ → Option φ}

/-- What a frame of a stack needs is in the stack. -/
theorem Stands.mem (h : Stands needs stack) {g : φ} (hf : f ∈ stack) (hg : needs f = some g) :
    g ∈ stack := by
  induction stack with
  | nil => cases hf
  | cons f' rest ih =>
    rcases List.mem_cons.mp hf with rfl | hrest
    · exact List.mem_cons_of_mem _ (List.mem_of_head? (h.1 g hg))
    · exact List.mem_cons_of_mem _ (ih h.2 hrest)

/-- Frames that need nothing may be called by any frame. -/
theorem Stands.append {calls rest : List φ} (h : Stands needs rest)
    (hcalls : ∀ f ∈ calls, needs f = none) : Stands needs (calls ++ rest) := by
  induction calls with
  | nil => exact h
  | cons f calls ih =>
    refine ⟨fun g hg => ?_, ih fun g hg => hcalls g (List.mem_cons_of_mem _ hg)⟩
    rw [hcalls f List.mem_cons_self] at hg
    cases hg

/-- The top frame of a thread, and every frame that is not one, needs frames that are not executed
now. -/
theorem Stands.mem_others (h : ∀ stack ∈ cfg.threads, Stands needs stack) {t : Nat} {g x : φ}
    (hf : cfg.top t = some f) (hg : g ∈ f ::ₘ cfg.others t) (hx : needs g = some x) :
    x ∈ cfg.others t := by
  obtain ⟨rest, hrest⟩ := Config.top_eq_some hf
  have hstack := h _ (List.mem_of_getElem? hrest)
  have hothers {y : φ} : y ∈ cfg.others t ↔ (∃ stack ∈ cfg.threads.take t, y ∈ stack) ∨ y ∈ rest ∨
      ∃ stack ∈ cfg.threads.drop (t + 1), y ∈ stack := by
    simp [Config.others, hrest]
  rcases Multiset.mem_cons.mp hg with rfl | hg
  · exact hothers.mpr (.inr (.inl (List.mem_of_head? (hstack.1 x hx))))
  rcases hothers.mp hg with ⟨stack, hmem, hg⟩ | hg | ⟨stack, hmem, hg⟩
  · exact hothers.mpr (.inl ⟨stack, hmem, (h stack (List.mem_of_mem_take hmem)).mem hg hx⟩)
  · exact hothers.mpr (.inr (.inl (hstack.2.mem hg hx)))
  · exact hothers.mpr (.inr (.inr ⟨stack, hmem, (h stack (List.mem_of_mem_drop hmem)).mem hg hx⟩))

/-- The steps at which every frame needs frames that are not executed now. -/
def Policy.stands (needs : φ → Option φ) : Policy σ φ χ ε where
  run _ f R _ := ∀ g ∈ f ::ₘ R, ∀ x, needs g = some x → x ∈ R

/-- Where every step keeps the stacks in order, no step executes a frame that another one needs. -/
theorem Reaches.stands (h : M.Reaches p cfg cfg')
    (hinit : ∀ stack ∈ cfg.threads, Stands needs stack)
    (hrun : ∀ s f c o rest, M.exec f c s = some o → Stands needs (f :: rest) →
      Stands needs (o.calls ++ rest) ∧ ∀ stack ∈ o.spawned, Stands needs stack)
    (hstart : ∀ s f, M.entry f s = true → needs f = none) :
    M.Reaches (Policy.stands needs) cfg cfg' := by
  refine System.Reach.strengthen (J := fun cfg => ∀ stack ∈ cfg.threads, Stands needs stack) h
    (fun cfg' h' => ?_) ?_
  · exact Reaches.stacks h' hinit hrun fun s f hf =>
      ⟨fun x hx => absurd ((hstart s f hf).symm.trans hx) (Option.some_ne_none x).symm, trivial⟩
  · intro cfg a hcfg
    cases a with
    | run t c => exact fun f hf g hg x hx => Stands.mem_others hcfg hf hg hx
    | start | env => trivial

end

end Machine
