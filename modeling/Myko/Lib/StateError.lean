import Mathlib.Data.List.Sort

/-!
Programs that carry a state and may fail, where a failure keeps the state reached.
`bind_ok` and its kin take a run apart; `Moves` follows one relation through a program.
-/

namespace StateError

variable {ε σ α β : Type}

/-- The state a run ends in, returned or failed. -/
def final (m : EStateM ε σ α) (s : σ) : σ :=
  match m s with
  | .ok _ t => t
  | .error _ t => t

/-- Run `m` and hand its failure over as a value. -/
def attempt (m : EStateM ε σ α) : EStateM ε σ (Except ε α) := fun s =>
  match m s with
  | .ok a t => .ok (.ok a) t
  | .error e t => .ok (.error e) t

/-- A plain result as a program. -/
def passOn : Except ε α → EStateM ε σ α
  | .ok a => pure a
  | .error e => throw e

/-- Run the steps of a list in order, stopping at the first failure. -/
def each (f : α → EStateM ε σ Unit) : List α → EStateM ε σ Unit
  | [] => pure ()
  | a :: rest => do
    f a
    each f rest

/-! ### Taking a run apart -/

theorem bind_eq (m : EStateM ε σ α) (f : α → EStateM ε σ β) (s : σ) :
    (m >>= f) s = match m s with
      | .ok a t => f a t
      | .error e t => .error e t := by
  change EStateM.bind m f s = _
  unfold EStateM.bind
  cases m s <;> rfl

theorem bind_ok {m : EStateM ε σ α} {f : α → EStateM ε σ β} {s t : σ} {b : β}
    (h : (m >>= f) s = .ok b t) : ∃ a s', m s = .ok a s' ∧ f a s' = .ok b t := by
  rw [bind_eq] at h
  cases run : m s with
  | ok a s' => rw [run] at h; exact ⟨a, s', rfl, h⟩
  | error e s' => rw [run] at h; cases h

theorem bind_error {m : EStateM ε σ α} {f : α → EStateM ε σ β} {s t : σ} {e : ε}
    (h : (m >>= f) s = .error e t) :
    m s = .error e t ∨ ∃ a s', m s = .ok a s' ∧ f a s' = .error e t := by
  rw [bind_eq] at h
  cases run : m s with
  | ok a s' => rw [run] at h; exact .inr ⟨a, s', rfl, h⟩
  | error e' s' => rw [run] at h; cases h; exact .inl rfl

theorem bind_of_ok {m : EStateM ε σ α} {f : α → EStateM ε σ β} {s t : σ} {a : α}
    (h : m s = .ok a t) : (m >>= f) s = f a t := by
  rw [bind_eq, h]

theorem bind_of_error {m : EStateM ε σ α} {f : α → EStateM ε σ β} {s t : σ} {e : ε}
    (h : m s = .error e t) : (m >>= f) s = .error e t := by
  rw [bind_eq, h]

theorem pure_eq (a : α) (s : σ) : (pure a : EStateM ε σ α) s = .ok a s := rfl

theorem get_eq (s : σ) : (get : EStateM ε σ σ) s = .ok s s := rfl

theorem set_eq (s t : σ) : (set t : EStateM ε σ Unit) s = .ok () t := rfl

theorem modify_eq (f : σ → σ) (s : σ) : (modify f : EStateM ε σ Unit) s = .ok () (f s) := rfl

theorem pure_ok {a b : α} {s t : σ} (h : (pure a : EStateM ε σ α) s = .ok b t) :
    b = a ∧ t = s := by
  rw [pure_eq] at h
  cases h
  exact ⟨rfl, rfl⟩

theorem attempt_eq (m : EStateM ε σ α) (s : σ) :
    attempt m s = match m s with
      | .ok a t => .ok (.ok a) t
      | .error e t => .ok (.error e) t := rfl

theorem passOn_ok {r : Except ε α} {a : α} {s t : σ}
    (h : (passOn r : EStateM ε σ α) s = .ok a t) : r = .ok a ∧ t = s := by
  cases r with
  | ok value =>
    obtain ⟨rfl, rfl⟩ := pure_ok h
    exact ⟨rfl, rfl⟩
  | error e => cases h

theorem attempt_ok {m : EStateM ε σ α} {a : α} {s t : σ} (h : attempt m s = .ok (.ok a) t) :
    m s = .ok a t := by
  rw [attempt_eq] at h
  cases run : m s with
  | ok _ _ =>
    rw [run] at h
    cases h
    rfl
  | error _ _ =>
    rw [run] at h
    cases h

/-- Both of two steps went through. -/
theorem both_ok {m m' : EStateM ε σ Unit} {s t : σ}
    (h : (do
      let left ← attempt m
      let right ← attempt m'
      passOn left
      passOn right : EStateM ε σ Unit) s = .ok () t) :
    ∃ u, m s = .ok () u ∧ m' u = .ok () t := by
  obtain ⟨left, u, first, h⟩ := bind_ok h
  obtain ⟨right, v, second, h⟩ := bind_ok h
  obtain ⟨_, w, passed, h⟩ := bind_ok h
  obtain ⟨rfl, rfl⟩ := passOn_ok passed
  obtain ⟨rfl, rfl⟩ := passOn_ok h
  exact ⟨u, attempt_ok first, attempt_ok second⟩

theorem each_cons (f : α → EStateM ε σ Unit) (a : α) (rest : List α) (s : σ) :
    each f (a :: rest) s = (f a >>= fun _ => each f rest) s := rfl

theorem each_append (f : α → EStateM ε σ Unit) (first rest : List α) :
    each f (first ++ rest) = (each f first >>= fun _ => each f rest) := by
  induction first with
  | nil => rfl
  | cons a first ih => rw [List.cons_append, each, each, ih, bind_assoc]

theorem each_flatMap (f : β → EStateM ε σ Unit) (g : α → List β) (items : List α) :
    each (fun a => each f (g a)) items = each f (items.flatMap g) := by
  induction items with
  | nil => rfl
  | cons a rest ih => rw [List.flatMap_cons, each_append, ← ih, each]

/-- A loop goes through when each of its steps does from wherever the ones before lead. -/
theorem each_returns {P : σ → Prop} {f : α → EStateM ε σ Unit} {items : List α}
    (steps : ∀ a ∈ items, ∀ s, P s → ∃ t, f a s = .ok () t ∧ P t) {s : σ} (start : P s) :
    ∃ t, each f items s = .ok () t ∧ P t := by
  induction items generalizing s with
  | nil => exact ⟨s, rfl, start⟩
  | cons a rest ih =>
    obtain ⟨t, first, holds⟩ := steps a List.mem_cons_self s start
    obtain ⟨u, later, holds⟩ := ih (fun b among => steps b (List.mem_cons_of_mem _ among)) holds
    exact ⟨u, by rw [each_cons, bind_of_ok first]; exact later, holds⟩

/-- A loop whose steps all succeed folds their effects. -/
theorem each_ok {f : α → EStateM ε σ Unit} {step : σ → α → σ} {items : List α}
    (h : ∀ a ∈ items, ∀ s, f a s = .ok () (step s a)) (s : σ) :
    each f items s = .ok () (items.foldl step s) := by
  induction items generalizing s with
  | nil => rfl
  | cons a rest ih =>
    rw [each_cons, bind_of_ok (h a List.mem_cons_self s)]
    exact ih (fun b member => h b (List.mem_cons_of_mem _ member)) _

theorem ok_final_of_run' {m : EStateM ε σ α} {s : σ} {a : α} (h : EStateM.run' m s = some a) :
    m s = .ok a (final m s) := by
  unfold EStateM.run' EStateM.run at h
  unfold final
  cases run : m s with
  | ok b t =>
    rw [run] at h
    obtain rfl : b = a := Option.some.inj h
    rfl
  | error error t =>
    rw [run] at h
    cases h

theorem ok_of_run' {m : EStateM ε σ α} {s : σ} {a : α} (h : EStateM.run' m s = some a) : ∃ t, m s = .ok a t :=
  ⟨_, ok_final_of_run' h⟩

theorem error_final_of_run' {m : EStateM ε σ α} {s : σ} (h : EStateM.run' m s = none) :
    ∃ e, m s = .error e (final m s) := by
  unfold EStateM.run' EStateM.run at h
  unfold final
  cases run : m s with
  | ok a t =>
    rw [run] at h
    cases h
  | error e t => exact ⟨e, rfl⟩

theorem final_of_ok {m : EStateM ε σ α} {s t : σ} {a : α} (h : m s = .ok a t) : final m s = t := by
  rw [final, h]

theorem final_of_error {m : EStateM ε σ α} {s t : σ} {e : ε} (h : m s = .error e t) :
    final m s = t := by
  rw [final, h]

theorem final_bind (m : EStateM ε σ α) (f : α → EStateM ε σ β) (s : σ) :
    final (m >>= f) s = match m s with
      | .ok a t => final (f a) t
      | .error _ t => t := by
  unfold final
  rw [bind_eq]
  cases m s <;> rfl

theorem final_attempt_bind (m : EStateM ε σ α) (f : Except ε α → EStateM ε σ β) (s : σ) :
    final (attempt m >>= f) s = match m s with
      | .ok a t => final (f (.ok a)) t
      | .error e t => final (f (.error e)) t := by
  rw [final_bind, attempt_eq]
  cases m s <;> rfl

theorem final_discard (m : EStateM ε σ α) (s : σ) : final (discard m) s = final m s := by
  change final (m >>= fun _ => pure ()) s = _
  rw [final_bind]
  unfold final
  cases m s <;> rfl

theorem discard_ok {m : EStateM ε σ α} {s t : σ} (h : discard m s = .ok () t) :
    ∃ a, m s = .ok a t := by
  change (m >>= fun _ => pure ()) s = .ok () t at h
  obtain ⟨a, s', run, h⟩ := bind_ok h
  obtain ⟨-, rfl⟩ := pure_ok h
  exact ⟨a, run⟩

theorem discard_of_ok {m : EStateM ε σ α} {s t : σ} {a : α} (h : m s = .ok a t) : discard m s = .ok () t := by
  change (m >>= fun _ => pure ()) s = .ok () t
  rw [bind_eq, h]
  rfl

theorem discard_of_error {m : EStateM ε σ α} {s t : σ} {e : ε} (h : m s = .error e t) :
    discard m s = .error e t := by
  change (m >>= fun _ => pure ()) s = .error e t
  rw [bind_eq, h]

theorem both_returns {m m' : EStateM ε σ Unit} {s t u : σ} (first : m s = .ok () t) (second : m' t = .ok () u) :
    (do
      let left ← attempt m
      let right ← attempt m'
      passOn left
      passOn right : EStateM ε σ Unit) s = .ok () u := by
  have caught : attempt m s = .ok (.ok ()) t := by rw [attempt_eq, first]
  have caught' : attempt m' t = .ok (.ok ()) u := by rw [attempt_eq, second]
  rw [bind_of_ok caught, bind_of_ok caught']
  rfl

/-- Two steps are both made, whatever they return. -/
theorem final_both (m m' : EStateM ε σ Unit) (s : σ) :
    final (do
      let left ← attempt m
      let right ← attempt m'
      passOn left
      passOn right : EStateM ε σ Unit) s = final m' (final m s) := by
  have caught : ∀ (m : EStateM ε σ Unit) (s : σ), ∃ result, attempt m s = .ok result (final m s) := by
    intro m s
    unfold final
    rw [attempt_eq]
    cases m s <;> exact ⟨_, rfl⟩
  have passed : ∀ (left right : Except ε Unit) (s : σ),
      final (do passOn left; passOn right : EStateM ε σ Unit) s = s := by
    intro left right s
    cases left <;> cases right <;> rfl
  obtain ⟨left, first⟩ := caught m s
  obtain ⟨right, second⟩ := caught m' (final m s)
  rw [final_bind, first]
  dsimp only
  rw [final_bind, second]
  exact passed left right _

/-! ### Plain results -/

theorem except_bind_ok {x : Except ε α} {f : α → Except ε β} {b : β} (h : (x >>= f) = .ok b) :
    ∃ a, x = .ok a ∧ f a = .ok b := by
  cases x with
  | ok a => exact ⟨a, rfl, h⟩
  | error e => cases h

theorem except_map_ok {x : Except ε α} {f : α → β} {b : β} (h : f <$> x = .ok b) :
    ∃ a, x = .ok a ∧ f a = b := by
  cases x with
  | ok a =>
    cases h
    exact ⟨a, rfl, rfl⟩
  | error e => cases h

theorem mapError_ok {ε' : Type} {f : ε → ε'} {x : Except ε α} {a : α} (h : x.mapError f = .ok a) :
    x = .ok a := by
  cases x with
  | ok value =>
    cases h
    rfl
  | error error => cases h

/-- A step over a list that goes through has gone through for every element. -/
theorem mapM_ok {f : α → Except ε β} {items : List α} {results : List β}
    (h : items.mapM f = .ok results) : ∀ a ∈ items, ∃ b ∈ results, f a = .ok b := by
  induction items generalizing results with
  | nil => simp
  | cons a rest ih =>
    rw [List.mapM_cons] at h
    obtain ⟨b, first, h⟩ := except_bind_ok h
    obtain ⟨others, remaining, h⟩ := except_bind_ok h
    cases h
    intro other member
    rcases List.mem_cons.mp member with rfl | member
    · exact ⟨b, List.mem_cons_self, first⟩
    · obtain ⟨found, listed, run⟩ := ih remaining other member
      exact ⟨found, List.mem_cons_of_mem _ listed, run⟩

/-! ### Following a relation through a program -/

/-- Every run of `m` that returns moves along `R`, every run that fails along `E`. -/
def Moves (R E : σ → σ → Prop) (m : EStateM ε σ α) : Prop := ∀ s,
  match m s with
  | .ok _ t => R s t
  | .error _ t => E s t

/-- Relations that the steps of a program compose along. -/
structure Frame (R E : σ → σ → Prop) : Prop where
  refl : ∀ s, R s s
  trans : ∀ {a b c}, R a b → R b c → R a c
  fail : ∀ s, E s s
  failed : ∀ {a b c}, R a b → E b c → E a c

/-- One relation, kept by a run however it ends. -/
theorem Frame.always {R : σ → σ → Prop} (refl : ∀ s, R s s)
    (trans : ∀ {a b c}, R a b → R b c → R a c) : Frame R R where
  refl := refl
  trans := trans
  fail := refl
  failed := trans

/-- A relation asked only of the runs that return. -/
theorem Frame.returning {R : σ → σ → Prop} (refl : ∀ s, R s s)
    (trans : ∀ {a b c}, R a b → R b c → R a c) : Frame R fun _ _ => True where
  refl := refl
  trans := trans
  fail _ := trivial
  failed _ _ := trivial

variable {R E : σ → σ → Prop}

theorem Moves.ok {m : EStateM ε σ α} {s t : σ} {a : α} (h : Moves R E m) (run : m s = .ok a t) :
    R s t := by
  have step := h s
  rwa [run] at step

theorem Moves.error {m : EStateM ε σ α} {s t : σ} {e : ε} (h : Moves R E m)
    (run : m s = .error e t) : E s t := by
  have step := h s
  rwa [run] at step

theorem Moves.final {m : EStateM ε σ α} (h : Moves R R m) (s : σ) : R s (final m s) := by
  cases run : m s with
  | ok a t => simpa only [final_of_ok run] using h.ok run
  | error e t => simpa only [final_of_error run] using h.error run

theorem Moves.intro {m : EStateM ε σ α} (ok : ∀ s a t, m s = .ok a t → R s t)
    (error : ∀ s e t, m s = .error e t → E s t) : Moves R E m := by
  intro s
  cases run : m s with
  | ok a t => exact ok s a t run
  | error e t => exact error s e t run

theorem Moves.pure (frame : Frame R E) (a : α) : Moves R E (pure a : EStateM ε σ α) :=
  fun s => frame.refl s

theorem Moves.throw (frame : Frame R E) (e : ε) : Moves R E (throw e : EStateM ε σ α) :=
  fun s => frame.fail s

theorem Moves.get (frame : Frame R E) : Moves R E (get : EStateM ε σ σ) := fun s => frame.refl s

theorem Moves.modify {f : σ → σ} (h : ∀ s, R s (f s)) : Moves R E (modify f : EStateM ε σ Unit) := h

theorem Moves.bind (frame : Frame R E) {m : EStateM ε σ α} {f : α → EStateM ε σ β}
    (first : Moves R E m) (rest : ∀ a, Moves R E (f a)) : Moves R E (m >>= f) := by
  refine Moves.intro (fun s b t run => ?_) fun s e t run => ?_
  · obtain ⟨a, s', run, run'⟩ := bind_ok run
    exact frame.trans (first.ok run) ((rest a).ok run')
  · rcases bind_error run with run | ⟨a, s', run, run'⟩
    · exact first.error run
    · exact frame.failed (first.ok run) ((rest a).error run')

/-- Steps along different relations, composed. -/
theorem Moves.seq {R₁ E₁ R₂ E₂ : σ → σ → Prop} {m : EStateM ε σ α} {f : α → EStateM ε σ β}
    (first : Moves R₁ E₁ m) (rest : ∀ a, Moves R₂ E₂ (f a)) (fails : ∀ {a b}, E₁ a b → E a b)
    (returned : ∀ {a b c}, R₁ a b → R₂ b c → R a c) (failed : ∀ {a b c}, R₁ a b → E₂ b c → E a c) :
    Moves R E (m >>= f) := by
  refine Moves.intro (fun s b t run => ?_) fun s e t run => ?_
  · obtain ⟨a, s', run, run'⟩ := bind_ok run
    exact returned (first.ok run) ((rest a).ok run')
  · rcases bind_error run with run | ⟨a, s', run, run'⟩
    · exact fails (first.error run)
    · exact failed (first.ok run) ((rest a).error run')

/-- A failure that is caught may be followed by a clean-up, if the failure is then passed on. -/
theorem Moves.attempt_bind (frame : Frame R E) {m : EStateM ε σ α}
    {f : Except ε α → EStateM ε σ β} (first : Moves R E m) (returned : ∀ a, Moves R E (f (.ok a)))
    (caught : ∀ e, Moves (fun s t => ∀ a, E a s → R a t) (fun s t => ∀ a, E a s → E a t) (f (.error e))) :
    Moves R E (attempt m >>= f) := by
  intro s
  rw [bind_eq, attempt_eq]
  cases run : m s with
  | ok a t =>
    dsimp only
    cases run' : f (.ok a) t with
    | ok b u => exact frame.trans (first.ok run) ((returned a).ok run')
    | error e u => exact frame.failed (first.ok run) ((returned a).error run')
  | error e t =>
    dsimp only
    cases run' : f (.error e) t with
    | ok b u => exact (caught e).ok run' s (first.error run)
    | error e' u => exact (caught e).error run' s (first.error run)

theorem Moves.each (frame : Frame R E) {f : α → EStateM ε σ Unit} {items : List α}
    (step : ∀ a ∈ items, Moves R E (f a)) : Moves R E (each f items) := by
  induction items with
  | nil => exact Moves.pure frame ()
  | cons a rest ih =>
    exact Moves.bind frame (step a List.mem_cons_self)
      fun _ => ih fun b member => step b (List.mem_cons_of_mem _ member)

/-- Every step of a run that returns is taken somewhere between its ends. -/
theorem Moves.each_visits (frame : Frame R E) {f : α → EStateM ε σ Unit} {items : List α}
    (step : ∀ a ∈ items, Moves R E (f a)) {s t : σ} (run : StateError.each f items s = .ok () t) :
    ∀ a ∈ items, ∃ u v, R s u ∧ f a u = .ok () v ∧ R v t := by
  induction items generalizing s with
  | nil => exact fun a member => nomatch member
  | cons first rest ih =>
    obtain ⟨_, mid, ran, later⟩ := bind_ok run
    have others : ∀ a ∈ rest, Moves R E (f a) := fun a member => step a (List.mem_cons_of_mem _ member)
    intro a member
    rcases List.mem_cons.mp member with rfl | member
    · exact ⟨s, mid, frame.refl s, ran, (Moves.each frame others).ok later⟩
    · obtain ⟨u, v, before, visit, after⟩ := ih others later a member
      exact ⟨u, v, frame.trans ((step first List.mem_cons_self).ok ran) before, visit, after⟩

theorem Moves.foldlM (frame : Frame R E) {f : β → α → EStateM ε σ β}
    (step : ∀ acc a, Moves R E (f acc a)) (items : List α) (acc : β) :
    Moves R E (items.foldlM f acc) := by
  induction items generalizing acc with
  | nil => exact Moves.pure frame acc
  | cons a rest ih =>
    rw [List.foldlM_cons]
    exact Moves.bind frame (step acc a) ih

theorem Moves.ite {p : Prop} [Decidable p] {m m' : EStateM ε σ α}
    (h : p → Moves R E m) (h' : ¬p → Moves R E m') : Moves R E (if p then m else m') := by
  split
  · exact h ‹_›
  · exact h' ‹_›

/-! ### What every run keeps -/

/-- Every run of `m` keeps `I`, however it ends, and returns what satisfies `Q`. -/
def Keeps (I : σ → Prop) (m : EStateM ε σ α) (Q : α → Prop) : Prop := ∀ s, I s →
  match m s with
  | .ok a t => I t ∧ Q a
  | .error _ t => I t

variable {I : σ → Prop} {G : α → Prop} {H : β → Prop}

theorem Keeps.ok {m : EStateM ε σ α} {s t : σ} {a : α} (keeps : Keeps I m G) (holds : I s)
    (run : m s = .ok a t) : I t ∧ G a := by
  have step := keeps s holds
  rwa [run] at step

theorem Keeps.error {m : EStateM ε σ α} {s t : σ} {e : ε} (keeps : Keeps I m G) (holds : I s)
    (run : m s = .error e t) : I t := by
  have step := keeps s holds
  rwa [run] at step

theorem Keeps.intro {m : EStateM ε σ α} (ok : ∀ s a t, I s → m s = .ok a t → I t ∧ G a)
    (error : ∀ s e t, I s → m s = .error e t → I t) : Keeps I m G := by
  intro s holds
  cases run : m s with
  | ok a t => exact ok s a t holds run
  | error e t => exact error s e t holds run

theorem Keeps.final {m : EStateM ε σ α} (keeps : Keeps I m G) {s : σ} (holds : I s) : I (final m s) := by
  cases run : m s with
  | ok a t => simpa only [final_of_ok run] using (keeps.ok holds run).1
  | error e t => simpa only [final_of_error run] using keeps.error holds run

theorem Keeps.pure {a : α} (good : G a) : Keeps I (pure a : EStateM ε σ α) G := fun _ holds => ⟨holds, good⟩

theorem Keeps.throw (e : ε) : Keeps I (throw e : EStateM ε σ α) G := fun _ holds => holds

theorem Keeps.get : Keeps I (get : EStateM ε σ σ) I := fun _ holds => ⟨holds, holds⟩

theorem Keeps.modify {f : σ → σ} (keeps : ∀ s, I s → I (f s)) :
    Keeps I (modify f : EStateM ε σ Unit) fun _ => True := fun s holds => ⟨keeps s holds, trivial⟩

theorem Keeps.bind {m : EStateM ε σ α} {f : α → EStateM ε σ β} (first : Keeps I m G)
    (rest : ∀ a, G a → Keeps I (f a) H) : Keeps I (m >>= f) H := by
  refine Keeps.intro (fun s b t holds run => ?_) fun s e t holds run => ?_
  · obtain ⟨a, s', run, run'⟩ := bind_ok run
    obtain ⟨kept, good⟩ := first.ok holds run
    exact (rest a good).ok kept run'
  · rcases bind_error run with run | ⟨a, s', run, run'⟩
    · exact first.error holds run
    · obtain ⟨kept, good⟩ := first.ok holds run
      exact (rest a good).error kept run'

theorem Keeps.attempt {m : EStateM ε σ α} (keeps : Keeps I m G) :
    Keeps I (StateError.attempt m) fun result => ∀ a, result = .ok a → G a := by
  intro s holds
  rw [attempt_eq]
  cases run : m s with
  | ok a t =>
    obtain ⟨kept, good⟩ := keeps.ok holds run
    refine ⟨kept, fun b same => ?_⟩
    cases same
    exact good
  | error e t => exact ⟨keeps.error holds run, fun b same => nomatch same⟩

theorem Keeps.passOn {result : Except ε α} (good : ∀ a, result = .ok a → G a) :
    Keeps I (StateError.passOn result : EStateM ε σ α) G := by
  cases result with
  | ok a => exact Keeps.pure (good a rfl)
  | error e => exact Keeps.throw e

theorem Keeps.discard {m : EStateM ε σ α} (keeps : Keeps I m G) : Keeps I (discard m) fun _ => True := by
  refine Keeps.intro (fun s _ t holds run => ?_) fun s e t holds run => ?_
  · obtain ⟨a, run⟩ := discard_ok run
    exact ⟨(keeps.ok holds run).1, trivial⟩
  · have kept := keeps.final holds
    rwa [← final_discard, final_of_error run] at kept

theorem Keeps.ite {c : Prop} [Decidable c] {m m' : EStateM ε σ α} (h : c → Keeps I m G)
    (h' : ¬c → Keeps I m' G) : Keeps I (if c then m else m') G := by
  split
  · exact h ‹_›
  · exact h' ‹_›

theorem Keeps.each {f : α → EStateM ε σ Unit} {items : List α}
    (step : ∀ a ∈ items, Keeps I (f a) fun _ => True) : Keeps I (StateError.each f items) fun _ => True := by
  induction items with
  | nil => exact Keeps.pure trivial
  | cons a rest ih =>
    exact Keeps.bind (step a List.mem_cons_self)
      fun _ _ => ih fun b member => step b (List.mem_cons_of_mem _ member)

theorem Keeps.foldlM {f : β → α → EStateM ε σ β} {items : List α}
    (step : ∀ acc, ∀ a ∈ items, H acc → Keeps I (f acc a) H) {acc : β} (good : H acc) :
    Keeps I (items.foldlM f acc) H := by
  induction items generalizing acc with
  | nil => exact Keeps.pure good
  | cons a rest ih =>
    rw [List.foldlM_cons]
    exact Keeps.bind (step acc a List.mem_cons_self good)
      fun next reached => ih (fun later b member => step later b (List.mem_cons_of_mem _ member)) reached

end StateError
