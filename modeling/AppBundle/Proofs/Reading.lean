import AppBundle.Bytes

/-!
# Steps that succeed

A step that may fail is a value of `Except`, and a step that reads is a
`Reader`.  When a chain of steps succeeds, so did each of its steps: the
`of_bind` lemmas take the first step off a chain that succeeded or failed.
Going forward, `Reader.bind_ok` carries out the first step of a chain when its
result is known, and `Reader.number_append` is that result for a number that
was written.

A reader that succeeds takes its bytes from the front.  `Reader.Stable` says that
bytes behind its input make no difference to it.
-/

namespace AppBundle

universe u

variable {ε α β : Type}

/-! ## Chains of steps -/

namespace Step

/-- A chain that succeeds starts with a step that succeeds. -/
theorem ok_of_bind {x : Except ε α} {f : α → Except ε β} {b : β} (h : x >>= f = .ok b) :
    ∃ a, x = .ok a ∧ f a = .ok b := by
  cases x with
  | error e => cases h
  | ok a => exact ⟨a, rfl, h⟩

/-- A chain that fails does so in its first step or after it. -/
theorem error_of_bind {x : Except ε α} {f : α → Except ε β} {e : ε} (h : x >>= f = .error e) :
    x = .error e ∨ ∃ a, x = .ok a ∧ f a = .error e := by
  cases x with
  | error e' =>
    cases h
    exact .inl rfl
  | ok a => exact .inr ⟨a, rfl, h⟩

/-- A first step that succeeds hands its result to the others. -/
theorem bind_ok {x : Except ε α} {a : α} (f : α → Except ε β) (h : x = .ok a) :
    x >>= f = f a := by
  rw [h]
  rfl

/-- A chain succeeds when its first step does and the rest does with its result. -/
theorem bind_ok_iff {x : Except ε α} {f : α → Except ε β} {b : β} :
    x >>= f = .ok b ↔ ∃ a, x = .ok a ∧ f a = .ok b := by
  constructor
  · exact ok_of_bind
  · rintro ⟨a, ha, h⟩
    exact (bind_ok f ha).trans h

theorem ok_of_toOption {x : Except ε α} {a : α} (h : x.toOption = some a) : x = .ok a := by
  cases x with
  | error e => cases h
  | ok a' => exact congrArg Except.ok (Option.some.inj h)

theorem ok_of_isOk {x : Except ε α} (h : x.isOk = true) : ∃ a, x = .ok a := by
  cases x with
  | error e => cases h
  | ok a => exact ⟨a, rfl⟩

/-- A step fails when it does not succeed. -/
theorem exists_error_iff {x : Except ε α} : (∃ e, x = .error e) ↔ ¬ ∃ a, x = .ok a := by
  cases x <;> simp

theorem ok_of_any {x : Except ε α} {p : α → Bool} (h : x.toOption.any p = true) :
    ∃ a, x = .ok a ∧ p a = true := by
  cases x with
  | error e => cases h
  | ok a => exact ⟨a, rfl, h⟩

/-- A mapped step that succeeds comes from one that does. -/
theorem ok_of_map {x : Except ε α} {f : α → β} {b : β} (h : x.map f = .ok b) :
    ∃ a, x = .ok a ∧ f a = b := by
  cases x with
  | error e => cases h
  | ok a => exact ⟨a, rfl, Except.ok.inj h⟩

/-- A mapped step fails as the step does. -/
theorem error_of_map {x : Except ε α} {f : α → β} {e : ε} (h : x.map f = .error e) :
    x = .error e := by
  cases x with
  | error e' =>
    cases h
    rfl
  | ok a => cases h

/-- When a row of steps succeeds, each result comes from the step at its place. -/
theorem mapM_cons_ok {f : α → Except ε β} {a : α} {as : List α} {cs : List β}
    (h : (a :: as).mapM f = .ok cs) : ∃ b bs, f a = .ok b ∧ as.mapM f = .ok bs ∧ cs = b :: bs := by
  rw [List.mapM_cons] at h
  obtain ⟨b, hb, h⟩ := ok_of_bind h
  obtain ⟨bs, hbs, h⟩ := ok_of_bind h
  exact ⟨b, bs, hb, hbs, (Except.ok.inj h).symm⟩

theorem length_of_mapM {f : α → Except ε β} {as : List α} {bs : List β}
    (h : as.mapM f = .ok bs) : bs.length = as.length := by
  induction as generalizing bs with
  | nil =>
    cases h
    rfl
  | cons a as ih =>
    obtain ⟨b, bs', -, hbs, rfl⟩ := mapM_cons_ok h
    rw [List.length_cons, List.length_cons, ih hbs]

/-- When a row of steps fails, one of its steps does. -/
theorem error_of_mapM {f : α → Except ε β} {as : List α} {e : ε} (h : as.mapM f = .error e) :
    ∃ a ∈ as, f a = .error e := by
  induction as with
  | nil => cases h
  | cons a as ih =>
    rw [List.mapM_cons] at h
    rcases error_of_bind h with h | ⟨b, -, h⟩
    · exact ⟨a, by simp, h⟩
    · rcases error_of_bind h with h | ⟨bs, -, h⟩
      · obtain ⟨a', ha', h⟩ := ih h
        exact ⟨a', List.mem_cons_of_mem _ ha', h⟩
      · cases h

/-- When a row of steps succeeds, its results are those of its steps. -/
theorem mem_of_mapM {f : α → Except ε β} {as : List α} {bs : List β} (h : as.mapM f = .ok bs)
    {b : β} : b ∈ bs ↔ ∃ a ∈ as, f a = .ok b := by
  induction as generalizing bs with
  | nil =>
    cases h
    simp
  | cons a as ih =>
    obtain ⟨b', bs', hb', hbs', rfl⟩ := mapM_cons_ok h
    simp [ih hbs', hb', eq_comm (a := b)]

theorem ok_of_mem_mapM {f : α → Except ε β} {as : List α} {bs : List β} (h : as.mapM f = .ok bs)
    {a : α} (ha : a ∈ as) : ∃ b, f a = .ok b := by
  induction as generalizing bs with
  | nil => cases ha
  | cons a' as ih =>
    obtain ⟨b', bs', hb', hbs', rfl⟩ := mapM_cons_ok h
    rcases List.mem_cons.1 ha with rfl | ha
    · exact ⟨b', hb'⟩
    · exact ih hbs' ha

/-- A row of steps that all succeed succeeds. -/
theorem mapM_ok_of_forall {f : α → Except ε β} {as : List α}
    (h : ∀ a ∈ as, ∃ b, f a = .ok b) : ∃ bs, as.mapM f = .ok bs := by
  cases hm : as.mapM f with
  | ok bs => exact ⟨bs, rfl⟩
  | error e =>
    obtain ⟨a, ha, he⟩ := error_of_mapM hm
    obtain ⟨b, hb⟩ := h a ha
    rw [hb] at he
    cases he

/-- A row of steps succeeds when each of them does. -/
theorem exists_mapM_ok_iff {f : α → Except ε β} {as : List α} :
    (∃ bs, as.mapM f = .ok bs) ↔ ∀ a ∈ as, ∃ b, f a = .ok b := by
  constructor
  · rintro ⟨bs, h⟩ a ha
    exact ok_of_mem_mapM h ha
  · exact mapM_ok_of_forall

/-- Steps that hand back what they take do so in a row. -/
theorem mapM_eq_self {f : α → Except ε α} {as : List α} (h : ∀ a ∈ as, f a = .ok a) :
    as.mapM f = .ok as := by
  induction as with
  | nil => rfl
  | cons a as ih =>
    obtain ⟨ha, has⟩ := List.forall_mem_cons.1 h
    rw [List.mapM_cons, bind_ok _ ha, bind_ok _ (ih has)]
    rfl

/-- A row of checks succeeds when each of them does. -/
theorem forM_ok_iff {α : Type u} {f : α → Except ε Unit} {as : List α} :
    as.forM f = .ok () ↔ ∀ a ∈ as, f a = .ok () := by
  induction as with
  | nil => simp [List.forM, pure, Except.pure]
  | cons a as ih =>
    show (f a >>= fun _ => as.forM f) = .ok () ↔ _
    rw [List.forall_mem_cons, ← ih]
    constructor
    · intro h
      obtain ⟨⟨⟩, ha, h⟩ := ok_of_bind h
      exact ⟨ha, h⟩
    · rintro ⟨ha, h⟩
      rw [bind_ok _ ha]
      exact h

/-- When a row of checks fails, one of them does. -/
theorem error_of_forM {α : Type u} {f : α → Except ε Unit} {as : List α} {e : ε}
    (h : as.forM f = .error e) : ∃ a ∈ as, f a = .error e := by
  induction as with
  | nil => cases h
  | cons a as ih =>
    rcases error_of_bind (x := f a) (f := fun _ => as.forM f) h with h | ⟨_, -, h⟩
    · exact ⟨a, List.mem_cons_self, h⟩
    · obtain ⟨a', ha', h⟩ := ih h
      exact ⟨a', List.mem_cons_of_mem _ ha', h⟩

/-- A row of questions with one question more. -/
theorem allM_cons {α : Type u} (p : α → Except ε Bool) (a : α) (as : List α) :
    (a :: as).allM p = (p a <&&> as.allM p) := by
  rw [List.allM, andM]
  cases p a with
  | error e => rfl
  | ok b => cases b <;> rfl

/-- Nothing comes after the last question of a row. -/
theorem andM_allM_nil {α : Type u} (p : α → Except ε Bool) (x : Except ε Bool) :
    (x <&&> [].allM p) = x := by
  cases x with
  | error e => rfl
  | ok b => cases b <;> rfl

/-- Questions that are all answered with yes hand over to the questions after them. -/
theorem allM_append_of_forall {α : Type u} {p : α → Except ε Bool} {as : List α}
    (h : ∀ a ∈ as, p a = .ok true) (bs : List α) : (as ++ bs).allM p = bs.allM p := by
  induction as with
  | nil => rfl
  | cons a as ih =>
    obtain ⟨ha, has⟩ := List.forall_mem_cons.1 h
    rw [List.cons_append, allM_cons, ha]
    exact ih has

/-- Of questions that all have an answer the first no ends the row. -/
theorem allM_append_of_exists {α : Type u} {p : α → Except ε Bool} {as : List α}
    (h : ∀ a ∈ as, ∃ b, p a = .ok b) (hno : ∃ a ∈ as, p a = .ok false) (bs : List α) :
    (as ++ bs).allM p = .ok false := by
  induction as with
  | nil =>
    obtain ⟨a, ha, -⟩ := hno
    cases ha
  | cons a as ih =>
    obtain ⟨⟨b, hb⟩, has⟩ := List.forall_mem_cons.1 h
    rw [List.cons_append, allM_cons, hb]
    cases b with
    | false => rfl
    | true =>
      obtain ⟨c, hc, hcno⟩ := hno
      refine ih has ⟨c, (List.mem_cons.1 hc).resolve_left ?_, hcno⟩
      rintro rfl
      rw [hb] at hcno
      cases hcno

/-- A row of questions is answered with yes when each of them is. -/
theorem allM_eq_true_iff {α : Type u} {p : α → Except ε Bool} {as : List α} :
    as.allM p = .ok true ↔ ∀ a ∈ as, p a = .ok true := by
  constructor
  · intro h
    induction as with
    | nil => exact List.forall_mem_nil _
    | cons a as ih =>
      rw [allM_cons] at h
      obtain ⟨b, hb, h⟩ := ok_of_bind h
      cases b with
      | false => cases h
      | true => exact List.forall_mem_cons.2 ⟨hb, ih h⟩
  · intro h
    have hall := allM_append_of_forall h []
    rwa [List.append_nil] at hall

/-- What each step keeps, a chain of steps over a list keeps. -/
theorem foldlM_ok_induct {P : α → Prop} {f : α → β → Except ε α} {bs : List β} {a a' : α}
    (hstep : ∀ a b a', P a → f a b = .ok a' → P a') (ha : P a)
    (h : bs.foldlM f a = .ok a') : P a' := by
  induction bs generalizing a with
  | nil =>
    cases h
    exact ha
  | cons b bs ih =>
    rw [List.foldlM_cons] at h
    obtain ⟨a₁, hfirst, h⟩ := ok_of_bind h
    exact ih (hstep a b a₁ ha hfirst) h

/-- When a chain of steps over a list succeeds, so does the step of each member. -/
theorem ok_of_mem_foldlM {f : α → β → Except ε α} {bs : List β} {a a' : α}
    (h : bs.foldlM f a = .ok a') {b : β} (hb : b ∈ bs) : ∃ a₁ a₂, f a₁ b = .ok a₂ := by
  induction bs generalizing a with
  | nil => cases hb
  | cons b' bs ih =>
    rw [List.foldlM_cons] at h
    obtain ⟨a₁, hfirst, h⟩ := ok_of_bind h
    rcases List.mem_cons.1 hb with rfl | hb
    · exact ⟨a, a₁, hfirst⟩
    · exact ih h hb

/-- Steps that succeed wherever others do, and with the same result, do so in a chain. -/
theorem foldlM_ok_imp {f g : α → β → Except ε α} (hstep : ∀ a b a', f a b = .ok a' → g a b = .ok a')
    {bs : List β} {a a' : α} (h : bs.foldlM f a = .ok a') : bs.foldlM g a = .ok a' := by
  induction bs generalizing a with
  | nil => exact h
  | cons b bs ih =>
    rw [List.foldlM_cons] at h ⊢
    obtain ⟨a₁, hfirst, h⟩ := ok_of_bind h
    rw [bind_ok _ (hstep a b a₁ hfirst)]
    exact ih h

end Step

/-! ## Numbers -/

namespace Bytes

/-- Bytes write a number below the capacity of their width. -/
theorem toNat_lt_capacity (bs : Bytes) : toNat bs < capacity bs.length := by
  induction bs with
  | nil => simp [toNat, capacity]
  | cons b bs ih =>
    have hb := b.toNat_lt
    simp only [toNat, List.length_cons, capacity]
    omega

/-- Stretches of one length make a row that is so many times as long. -/
theorem length_flatMap {f : α → Bytes} {width : Nat} (hf : ∀ a, (f a).length = width)
    (l : List α) : (l.flatMap f).length = l.length * width := by
  induction l with
  | nil => simp
  | cons a as ih =>
    rw [List.flatMap_cons, List.length_append, hf, ih, List.length_cons, Nat.succ_mul, Nat.add_comm]

end Bytes

/-! ## Readers -/

namespace Reader

variable {m : Reader ε α} {f : α → Reader ε β} {bs : Bytes}

/-- A reader that succeeds starts with a step that succeeds. -/
theorem ok_of_bind {p : β × Bytes} (h : (m >>= f) bs = .ok p) :
    ∃ a rest, m bs = .ok (a, rest) ∧ f a rest = .ok p := by
  obtain ⟨⟨a, rest⟩, ha, h⟩ := Step.ok_of_bind (x := m bs) (f := fun q => f q.1 q.2) h
  exact ⟨a, rest, ha, h⟩

/-- A first step that succeeds hands its result and the rest of the bytes to the others. -/
theorem bind_ok {a : α} {rest : Bytes} (h : m bs = .ok (a, rest)) : (m >>= f) bs = f a rest :=
  Step.bind_ok (x := m bs) (fun q => f q.1 q.2) h

/-- A step that does not read leaves all bytes. -/
theorem lift_ok {x : Except ε α} {a : α} (h : x = .ok a) :
    (liftM x : Reader ε α) bs = .ok (a, bs) := by
  rw [h]
  rfl

/-- A step that does not read and succeeds leaves all bytes. -/
theorem ok_of_lift {x : Except ε α} {p : α × Bytes} (h : (liftM x : Reader ε α) bs = .ok p) :
    x = .ok p.1 ∧ p.2 = bs := by
  cases x with
  | error e => cases h
  | ok a =>
    cases h
    exact ⟨rfl, rfl⟩

/-- A number is read back in its width. -/
theorem number_append (short : ε) (width n : Nat) (rest : Bytes) :
    number short width (Bytes.ofNat width n ++ rest) = .ok (n % Bytes.capacity width, rest) := by
  have hsplit := Bytes.split?_append (Bytes.ofNat width n) rest
  rw [Bytes.length_ofNat] at hsplit
  simp [number, bytes, hsplit, Functor.map, StateT.map, bind, Except.bind, pure, Except.pure,
    Bytes.toNat_ofNat]

theorem number_append_of_lt {short : ε} {width n : Nat} (h : n < Bytes.capacity width)
    (rest : Bytes) : number short width (Bytes.ofNat width n ++ rest) = .ok (n, rest) := by
  rw [number_append, Nat.mod_eq_of_lt h]

/-- A number that was read stands in front of the rest, in its width. -/
theorem ok_of_number {short : ε} {width n : Nat} {rest : Bytes}
    (h : number short width bs = .ok (n, rest)) :
    ∃ front : Bytes, bs = front ++ rest ∧ front.length = width ∧ n = Bytes.toNat front := by
  obtain ⟨⟨front, rest'⟩, hfront, hn⟩ := Step.ok_of_bind h
  cases hn
  rw [bytes, Bytes.split?_eq] at hfront
  split at hfront
  · rename_i hsplit
    cases hfront
    split at hsplit
    · rename_i hle
      cases hsplit
      exact ⟨bs.take width, (List.take_append_drop width bs).symm, List.length_take_of_le hle, rfl⟩
    · cases hsplit
  · cases hfront

/-- A number that was read is below the capacity of its width. -/
theorem number_lt {short : ε} {width n : Nat} {rest : Bytes}
    (h : number short width bs = .ok (n, rest)) : n < Bytes.capacity width := by
  obtain ⟨front, -, rfl, rfl⟩ := ok_of_number h
  exact Bytes.toNat_lt_capacity front

theorem length_of_number {short : ε} {width n : Nat} {rest : Bytes}
    (h : number short width bs = .ok (n, rest)) : bs.length = width + rest.length := by
  obtain ⟨front, rfl, rfl, -⟩ := ok_of_number h
  exact List.length_append

/-! ## Bytes behind the input -/

/-- When the reader succeeds, bytes put behind its input stay behind what it
leaves, and it reads the same. -/
def Stable (m : Reader ε α) : Prop :=
  ∀ bs a rest, m bs = .ok (a, rest) → ∀ tail, m (bs ++ tail) = .ok (a, rest ++ tail)

namespace Stable

theorem pure (a : α) : (Pure.pure a : Reader ε α).Stable := by
  intro bs _ rest h tail
  cases h
  rfl

theorem throw (e : ε) : (MonadExcept.throw e : Reader ε α).Stable := by
  intro bs a rest h
  cases h

theorem lift (x : Except ε α) : (liftM x : Reader ε α).Stable := by
  intro bs a rest h tail
  obtain ⟨hx, rfl⟩ := ok_of_lift h
  exact lift_ok hx

theorem bind (hm : m.Stable) (hf : ∀ a, (f a).Stable) : (m >>= f).Stable := by
  intro bs b rest h tail
  obtain ⟨a, middle, hfirst, h⟩ := ok_of_bind h
  rw [bind_ok (hm bs a middle hfirst tail)]
  exact hf a middle b rest h tail

theorem number (short : ε) (width : Nat) : (Reader.number short width).Stable := by
  intro bs n rest h tail
  obtain ⟨front, rfl, rfl, rfl⟩ := ok_of_number h
  have hsplit := Bytes.split?_append front (rest ++ tail)
  simp [Reader.number, bytes, hsplit, Functor.map, StateT.map, Bind.bind, Except.bind, Pure.pure,
    Except.pure]

end Stable

end Reader

end AppBundle
