import Telomere.Lib.State

/-!
# Demands

What is known of a computation that can fail before it is run: whether it can succeed at all, and
whether it can fail in one of the ways `P`. What stands behind a computation that never succeeds is
never reached, so a sequence fails in one of the ways `P` only where everything before can succeed.
-/

namespace Telomere.Lib

variable {σ ε α β ι : Type}

structure Demand where
  passes : Bool
  asks : Bool
deriving DecidableEq, Repr

namespace Demand

def free : Demand := ⟨true, false⟩

def blocked : Demand := ⟨false, false⟩

def wanting : Demand := ⟨false, true⟩

def seq (first rest : Demand) : Demand :=
  ⟨first.passes && rest.passes, first.asks || (first.passes && rest.asks)⟩

def alt (first rest : Demand) : Demand :=
  ⟨first.passes || rest.passes, first.asks || rest.asks⟩

def seqAll (d : ι → Demand) (xs : List ι) : Demand :=
  xs.foldr (fun x rest => (d x).seq rest) free

def altAll (d : ι → Demand) (xs : List ι) : Demand :=
  xs.foldr (fun x rest => (d x).alt rest) blocked

structure Le (d e : Demand) : Prop where
  passes : d.passes = true → e.passes = true
  asks : d.asks = true → e.asks = true

@[simp] theorem free_seq (d : Demand) : free.seq d = d := by
  simp [seq, free]

@[simp] theorem seq_free (d : Demand) : d.seq free = d := by
  simp [seq, free]

theorem seq_asks_eq_false {d e : Demand} :
    (d.seq e).asks = false ↔ d.asks = false ∧ (d.passes = true → e.asks = false) := by
  rcases d with ⟨_ | _, _ | _⟩ <;> simp [seq]

theorem altAll_cons (d : ι → Demand) (x : ι) (xs : List ι) :
    altAll d (x :: xs) = (d x).alt (altAll d xs) := rfl

theorem seqAll_cons (d : ι → Demand) (x : ι) (xs : List ι) :
    seqAll d (x :: xs) = (d x).seq (seqAll d xs) := rfl

theorem alt_asks_eq_false {d e : Demand} :
    (d.alt e).asks = false ↔ d.asks = false ∧ e.asks = false :=
  Bool.or_eq_false_iff

theorem le_alt_left (d e : Demand) : d.Le (d.alt e) :=
  ⟨fun h => by simp [alt, h], fun h => by simp [alt, h]⟩

theorem Le.alt_right {d e : Demand} (h : d.Le e) (first : Demand) : d.Le (first.alt e) :=
  ⟨fun hd => by simp [alt, h.passes hd], fun hd => by simp [alt, h.asks hd]⟩

theorem le_altAll {d : ι → Demand} {xs : List ι} {x : ι} (hmem : x ∈ xs) :
    (d x).Le (altAll d xs) := by
  induction xs with
  | nil => cases hmem
  | cons x' xs ih =>
      rw [altAll_cons]
      rcases List.mem_cons.mp hmem with rfl | hmem
      · exact le_alt_left _ _
      · exact (ih hmem).alt_right _

theorem seqAll_asks_eq_false {d : ι → Demand} {xs : List ι} (h : ∀ x ∈ xs, (d x).asks = false) :
    (seqAll d xs).asks = false := by
  induction xs with
  | nil => rfl
  | cons x xs ih =>
      refine seq_asks_eq_false.mpr ⟨h x (List.mem_cons_self ..), fun _ => ?_⟩
      exact ih fun x' hmem => h x' (List.mem_cons_of_mem _ hmem)

theorem altAll_asks_eq_false {d : ι → Demand} {xs : List ι} (h : ∀ x ∈ xs, (d x).asks = false) :
    (altAll d xs).asks = false := by
  induction xs with
  | nil => rfl
  | cons x xs ih =>
      refine alt_asks_eq_false.mpr ⟨h x (List.mem_cons_self ..), ?_⟩
      exact ih fun x' hmem => h x' (List.mem_cons_of_mem _ hmem)

theorem seqAll_congr {d e : ι → Demand} {xs : List ι} (h : ∀ x ∈ xs, d x = e x) :
    seqAll d xs = seqAll e xs := by
  induction xs with
  | nil => rfl
  | cons x xs ih =>
      rw [seqAll_cons, seqAll_cons, h x (List.mem_cons_self ..),
        ih fun x' hmem => h x' (List.mem_cons_of_mem _ hmem)]

theorem altAll_congr {d e : ι → Demand} {xs : List ι} (h : ∀ x ∈ xs, d x = e x) :
    altAll d xs = altAll e xs := by
  induction xs with
  | nil => rfl
  | cons x xs ih =>
      rw [altAll_cons, altAll_cons, h x (List.mem_cons_self ..),
        ih fun x' hmem => h x' (List.mem_cons_of_mem _ hmem)]

end Demand

structure Heeds (P : ε → Prop) (d : Demand) (x : Except ε α) : Prop where
  passes : ∀ a, x = .ok a → d.passes = true
  spares : d.asks = false → Spares P x

namespace Heeds

variable {P : ε → Prop} {d e : Demand}

theorem of_spares {x : Except ε α} (hx : Spares P x) : Heeds P .free x :=
  ⟨fun _ _ => rfl, fun _ => hx⟩

theorem blocked {e : ε} (he : ¬P e) : Heeds P .blocked (.error e : Except ε α) :=
  ⟨fun _ h => (by cases h), fun _ => Spares.error he⟩

theorem wanting {e : ε} : Heeds P .wanting (.error e : Except ε α) :=
  ⟨fun _ h => (by cases h), fun h => (by cases h)⟩

theorem mono {x : Except ε α} (hle : d.Le e) (hx : Heeds P d x) : Heeds P e x := by
  refine ⟨fun a h => hle.passes (hx.passes a h), fun hasks => hx.spares ?_⟩
  rw [Bool.eq_false_iff]
  intro h
  rw [hle.asks h] at hasks
  cases hasks

theorem bind {x : Except ε α} {f : α → Except ε β} (hx : Heeds P d x)
    (hf : ∀ a, x = .ok a → Heeds P e (f a)) : Heeds P (d.seq e) (x >>= f) := by
  constructor
  · intro b h
    obtain ⟨a, hfirst, hrest⟩ := bind_eq_ok.mp h
    simp [Demand.seq, hx.passes a hfirst, (hf a hfirst).passes b hrest]
  · intro hasks
    obtain ⟨hd, he⟩ := Demand.seq_asks_eq_false.mp hasks
    exact Spares.bind (hx.spares hd) fun a h => (hf a h).spares (he (hx.passes a h))

theorem then_free {x : Except ε α} {f : α → Except ε β} (hx : Heeds P d x)
    (hf : ∀ a, Spares P (f a)) : Heeds P d (x >>= f) :=
  d.seq_free ▸ bind hx fun a _ => of_spares (hf a)

theorem free_then {x : Except ε α} {f : α → Except ε β} (hx : Spares P x)
    (hf : ∀ a, x = .ok a → Heeds P d (f a)) : Heeds P d (x >>= f) :=
  d.free_seq ▸ bind (of_spares hx) hf

end Heeds

def RunHeeds (P : ε → Prop) (d : Demand) (x : Run σ ε α) : Prop :=
  ∀ s, Heeds P d (x s)

namespace RunHeeds

variable {P : ε → Prop} {d e : Demand}

theorem spares {x : Run σ ε α} (hx : RunHeeds P d x) (hasks : d.asks = false) : RunSpares P x :=
  fun s => (hx s).spares hasks

theorem of_spares {x : Run σ ε α} (hx : RunSpares P x) : RunHeeds P .free x :=
  fun s => Heeds.of_spares (hx s)

theorem pure (a : α) : RunHeeds P .free (pure a : Run σ ε α) :=
  of_spares (RunSpares.pure a)

theorem blocked {e : ε} (he : ¬P e) : RunHeeds P .blocked (throw e : Run σ ε α) :=
  fun _ => Heeds.blocked he

theorem mono {x : Run σ ε α} (hle : d.Le e) (hx : RunHeeds P d x) : RunHeeds P e x :=
  fun s => (hx s).mono hle

theorem lift {x : Except ε α} (hx : Heeds P d x) : RunHeeds P d (liftM x : Run σ ε α) := by
  intro s
  refine ⟨?_, fun hasks => RunSpares.lift (hx.spares hasks) s⟩
  rintro ⟨a, s'⟩ h
  exact hx.passes a (run_lift_eq_ok.mp h).1

theorem bind {x : Run σ ε α} {f : α → Run σ ε β} (hx : RunHeeds P d x)
    (hf : ∀ a, RunHeeds P e (f a)) : RunHeeds P (d.seq e) (x >>= f) := by
  intro s
  exact Heeds.bind (hx s) fun r _ => hf r.1 r.2

theorem then_free {x : Run σ ε α} {f : α → Run σ ε β} (hx : RunHeeds P d x)
    (hf : ∀ a, RunSpares P (f a)) : RunHeeds P d (x >>= f) :=
  d.seq_free ▸ bind hx fun a => of_spares (hf a)

theorem free_then {x : Run σ ε α} {f : α → Run σ ε β} (hx : RunSpares P x)
    (hf : ∀ a, RunHeeds P d (f a)) : RunHeeds P d (x >>= f) :=
  d.free_seq ▸ bind (of_spares hx) hf

theorem lift_then {x : Except ε α} {f : α → Run σ ε β} (hx : Spares P x)
    (hf : ∀ a, x = .ok a → RunHeeds P d (f a)) : RunHeeds P d (liftM x >>= f) := by
  intro s
  refine Heeds.free_then (RunSpares.lift hx s) ?_
  rintro ⟨a, s'⟩ h
  exact hf a (run_lift_eq_ok.mp h).1 s'

end RunHeeds

end Telomere.Lib
