import Mathlib.Data.List.Chain

/-! # Lists and results

Lemmas about lists and `Except` that are useful beyond graphs. -/

namespace List

variable {α : Type} [DecidableEq α]

/-- Nothing is left twice when repetitions have been erased. -/
theorem nodup_eraseDups (l : List α) : l.eraseDups.Nodup := by
  match l with
  | [] => exact nodup_nil
  | x :: xs =>
    -- What is left are the others, without `x`: shorter, but not the tail itself.
    rw [eraseDups_cons, nodup_cons, mem_eraseDups, mem_filter]
    exact ⟨by simp, nodup_eraseDups _⟩
termination_by l.length
decreasing_by exact Nat.lt_succ_of_le (length_filter_le _ _)

omit [DecidableEq α] in
/-- Where nothing is there twice, nothing is erased. -/
theorem eraseDups_of_nodup [BEq α] [LawfulBEq α] {l : List α} (h : l.Nodup) : l.eraseDups = l := by
  induction l with
  | nil => rfl
  | cons a l ih =>
    rw [nodup_cons] at h
    -- Nothing in the tail equals the head, so nothing is left out.
    have hfilter : l.filter (fun b => !b == a) = l :=
      filter_eq_self.mpr fun b hb => by simpa using fun hba : b = a => h.1 (hba ▸ hb)
    rw [eraseDups_cons, hfilter, ih h.2]

/-- A one-to-one map keeps apart what was different. -/
theorem eraseDups_map {β : Type} [DecidableEq β] {f : α → β} (hf : f.Injective) (l : List α) :
    (l.map f).eraseDups = l.eraseDups.map f := by
  match l with
  | [] => rfl
  | x :: xs =>
    have hfilter : (xs.map f).filter (fun b => !b == f x) = (xs.filter fun a => !a == x).map f := by
      rw [filter_map]
      congr 1
      refine filter_congr fun a _ => ?_
      simp [hf.eq_iff]
    rw [map_cons, eraseDups_cons, eraseDups_cons, map_cons, hfilter, eraseDups_map hf]
termination_by l.length
decreasing_by exact Nat.lt_succ_of_le (length_filter_le _ _)

/-- Adding an element to a list leaves that many fewer elements of `l` outside of it. -/
theorem countP_not_mem_concat {seen : List α} {a : α} (ha : a ∉ seen) (l : List α) :
    l.countP (· ∉ seen ++ [a]) + l.count a = l.countP (· ∉ seen) := by
  induction l with
  | nil => rfl
  | cons x xs ih =>
    by_cases hxa : x = a
    · -- This element was outside and is not any more; `count` makes up for it.
      simp [hxa, ha] at ih ⊢
      omega
    · simp [countP_cons, hxa] at ih ⊢
      omega

omit [DecidableEq α] in
/-- The member of a list of length one is all of it. -/
theorem eq_singleton_of_mem {l : List α} {a : α} (hlen : l.length = 1) (ha : a ∈ l) : l = [a] := by
  obtain ⟨b, rfl⟩ := List.length_eq_one_iff.mp hlen
  rw [List.mem_singleton.mp ha]

omit [DecidableEq α] in
/-- In a chain every element but the last is related to the next. -/
theorem IsChain.mem_getLast?_or_exists {R : α → α → Prop} {l : List α} (h : l.IsChain R) {a : α}
    (ha : a ∈ l) : a ∈ l.getLast? ∨ ∃ b ∈ l, R a b := by
  induction h with
  | nil => cases ha
  | singleton x => exact .inl (by simpa using (List.mem_singleton.mp ha).symm)
  | @cons_cons x y l hxy _ ih =>
    rcases List.mem_cons.mp ha with rfl | ha
    · exact .inr ⟨y, by simp, hxy⟩
    · refine (ih ha).imp (fun hlast => ?_) fun ⟨b, hb, hab⟩ => ⟨b, List.mem_cons_of_mem _ hb, hab⟩
      rwa [List.getLast?_cons_cons]

omit [DecidableEq α] in
/-- Functions that agree on a list find the same in it. -/
theorem findSome?_congr {β : Type} {f g : α → Option β} {l : List α} (h : ∀ a ∈ l, f a = g a) :
    l.findSome? f = l.findSome? g := by
  induction l with
  | nil => rfl
  | cons a l ih =>
    rw [forall_mem_cons] at h
    rw [findSome?_cons, findSome?_cons, h.1, ih h.2]

/-- The element is the first one of the list that has the property. -/
def IsFirst (P : α → Prop) (l : List α) (a : α) : Prop :=
  ∃ before after, l = before ++ a :: after ∧ (∀ b ∈ before, ¬ P b) ∧ P a

omit [DecidableEq α] in
/-- If some elements of a list have a property, one of them is the first. -/
theorem exists_isFirst {P : α → Prop} {l : List α} (h : ∃ a ∈ l, P a) : ∃ a, l.IsFirst P a := by
  induction l with
  | nil => simp at h
  | cons b l ih =>
    by_cases hb : P b
    · exact ⟨b, [], l, rfl, by simp, hb⟩
    · have hl : ∃ a ∈ l, P a := by simpa [hb] using h
      obtain ⟨a, before, after, rfl, hbefore, ha⟩ := ih hl
      exact ⟨a, b :: before, after, rfl, List.forall_mem_cons.mpr ⟨hb, hbefore⟩, ha⟩

omit [DecidableEq α] in
/-- Searching a list finds the first element with the property. -/
theorem find?_eq_some_iff_isFirst {p : α → Bool} {P : α → Prop} {l : List α} {a : α}
    (hp : ∀ a, p a = true ↔ P a) : l.find? p = some a ↔ l.IsFirst P a := by
  rw [find?_eq_some_iff_append, hp]
  simp only [Bool.not_eq_true', ← Bool.not_eq_true, hp]
  constructor
  · rintro ⟨ha, before, after, hsplit, hbefore⟩
    exact ⟨before, after, hsplit, hbefore, ha⟩
  · rintro ⟨before, after, hsplit, hbefore, ha⟩
    exact ⟨ha, before, after, hsplit, hbefore⟩

omit [DecidableEq α] in
/-- A search for faults finds the fault of the first element that has one. -/
theorem findSome?_map_eq_some_iff {β γ : Type} {f : α → Option β} {g : α → β → γ} {P : α → Prop}
    {l : List α} {c : γ} (hf : ∀ a, f a = none ↔ P a) :
    l.findSome? (fun a => (f a).map (g a)) = some c ↔
      ∃ a b, l.IsFirst (¬ P ·) a ∧ f a = some b ∧ c = g a b := by
  simp only [findSome?_eq_some_iff, Option.map_eq_none_iff, Option.map_eq_some_iff, hf]
  constructor
  · rintro ⟨before, a, after, hsplit, ⟨b, hb, rfl⟩, hbefore⟩
    have ha : ¬ P a := by simp [← hf, hb]
    exact ⟨a, b, ⟨before, after, hsplit, fun x hx => not_not.mpr (hbefore x hx), ha⟩, hb, rfl⟩
  · rintro ⟨a, b, ⟨before, after, hsplit, hbefore, _⟩, hb, rfl⟩
    exact ⟨before, a, after, hsplit, ⟨b, hb, rfl⟩, fun x hx => not_not.mp (hbefore x hx)⟩

omit [DecidableEq α] in
/-- What contributes nothing may be left out. -/
theorem flatMap_filter_of_eq_nil {β : Type} {f : α → List β} {p : α → Bool} {l : List α}
    (h : ∀ a ∈ l, p a = false → f a = []) : (l.filter p).flatMap f = l.flatMap f := by
  induction l with
  | nil => rfl
  | cons a l ih =>
    rw [forall_mem_cons] at h
    cases hp : p a with
    | true => rw [filter_cons_of_pos hp, flatMap_cons, flatMap_cons, ih h.2]
    | false => rw [filter_cons_of_neg (by simp [hp]), flatMap_cons, h.1 hp, ih h.2, nil_append]

end List

namespace Except

variable {ε α β : Type}

theorem ok_bind (a : α) (f : α → Except ε β) : (.ok a : Except ε α) >>= f = f a := rfl

/-- Two computations in a row succeed if both do. -/
theorem bind_eq_ok_iff {x : Except ε α} {f : α → Except ε β} {b : β} :
    x >>= f = .ok b ↔ ∃ a, x = .ok a ∧ f a = .ok b := by
  cases x with
  | error e => simp [bind, Except.bind]
  | ok a => simp [bind, Except.bind]

/-- Two computations in a row fail if the first one does, or else the second one. -/
theorem bind_eq_error_iff {x : Except ε α} {f : α → Except ε β} {e : ε} :
    x >>= f = .error e ↔ x = .error e ∨ ∃ a, x = .ok a ∧ f a = .error e := by
  cases x with
  | error e' => simp [bind, Except.bind]
  | ok a => simp [bind, Except.bind]

/-- If it is known when a function succeeds and with what, so it is for its map over a list. -/
theorem mapM_eq_ok_iff {f : α → Except ε β} {P : α → Prop} {r : α → β} {l : List α} {bs : List β}
    (hf : ∀ a ∈ l, ∀ b, f a = .ok b ↔ P a ∧ b = r a) :
    l.mapM f = .ok bs ↔ (∀ a ∈ l, P a) ∧ bs = l.map r := by
  induction l generalizing bs with
  | nil => simp [pure, Except.pure, eq_comm]
  | cons a l ih =>
    have ihl := fun bs => @ih bs fun a' ha' => hf a' (List.mem_cons_of_mem _ ha')
    rw [List.mapM_cons, bind_eq_ok_iff, List.forall_mem_cons, List.map_cons]
    simp only [bind_eq_ok_iff, hf a List.mem_cons_self, ihl, pure, Except.pure, Except.ok.injEq]
    constructor
    · intro h
      obtain ⟨b, ⟨hPa, rfl⟩, _, ⟨hPl, rfl⟩, rfl⟩ := h
      exact ⟨⟨hPa, hPl⟩, rfl⟩
    · intro ⟨⟨hPa, hPl⟩, hbs⟩
      rw [hbs]
      exact ⟨r a, ⟨hPa, rfl⟩, l.map r, ⟨hPl, rfl⟩, rfl⟩

/-- A map over a list succeeds if the function does on every element. -/
theorem mapM_eq_ok_iff_forall₂ {f : α → Except ε β} {l : List α} {bs : List β} :
    l.mapM f = .ok bs ↔ List.Forall₂ (fun a b => f a = .ok b) l bs := by
  induction l generalizing bs with
  | nil => simp [pure, Except.pure, eq_comm]
  | cons a l ih =>
    rw [List.mapM_cons, List.forall₂_cons_left_iff]
    simp only [bind_eq_ok_iff, ih, pure, Except.pure, Except.ok.injEq]
    constructor
    · intro ⟨b, hb, bs', hbs', hcons⟩
      exact ⟨b, bs', hb, hbs', hcons.symm⟩
    · intro ⟨b, bs', hb, hbs', hcons⟩
      exact ⟨b, hb, bs', hbs', hcons.symm⟩

/-- A map over a list fails if the function fails on an element and succeeds on those before it. -/
theorem mapM_eq_error_iff {f : α → Except ε β} {l : List α} {e : ε} :
    l.mapM f = .error e ↔ ∃ before a after, l = before ++ a :: after ∧
      (∀ b ∈ before, ∃ c, f b = .ok c) ∧ f a = .error e := by
  induction l with
  | nil => simp [pure, Except.pure]
  | cons a l ih =>
    rw [List.mapM_cons]
    cases ha : f a with
    | error e' =>
      constructor
      · intro h
        cases h
        exact ⟨[], a, l, rfl, by simp, ha⟩
      · rintro ⟨before, a', after, hsplit, hbefore, ha'⟩
        -- Nothing can come before the first element, since the function fails on that.
        cases before with
        | nil =>
          cases hsplit
          rw [ha] at ha'
          cases ha'
          rfl
        | cons b before =>
          cases hsplit
          obtain ⟨c, hc⟩ := hbefore a List.mem_cons_self
          rw [ha] at hc
          cases hc
    | ok b =>
      -- The first element is fine, so the error is that of the others.
      have hrest : ((.ok b : Except ε β) >>= fun b => l.mapM f >>= fun bs => pure (b :: bs)) =
          .error e ↔ l.mapM f = .error e := by
        cases l.mapM f with
        | error e' => exact Iff.rfl
        | ok bs => exact ⟨nofun, nofun⟩
      rw [hrest, ih]
      constructor
      · rintro ⟨before, a', after, rfl, hbefore, ha'⟩
        refine ⟨a :: before, a', after, rfl, ?_, ha'⟩
        exact List.forall_mem_cons.mpr ⟨⟨b, ha⟩, hbefore⟩
      · rintro ⟨before, a', after, hsplit, hbefore, ha'⟩
        cases before with
        | nil =>
          cases hsplit
          rw [ha] at ha'
          cases ha'
        | cons b' before =>
          cases hsplit
          exact ⟨before, a', after, rfl, (List.forall_mem_cons.mp hbefore).2, ha'⟩

/-! ## Faults -/

/-- The value, unless there is a fault. -/
def unlessFault (fault : Option ε) (a : α) : Except ε α :=
  match fault with
  | some e => .error e
  | none => .ok a

/-- Of two computations in a row the fault of the first one counts. -/
theorem unlessFault_bind (fault fault' : Option ε) (a : α) (f : α → Except ε β) {b : β}
    (hf : f a = unlessFault fault' b) :
    unlessFault fault a >>= f = unlessFault (fault.or fault') b := by
  cases fault with
  | some e => rfl
  | none => exact hf

/-- There is a value only if there is no fault, and it is the given one. -/
theorem unlessFault_eq_ok_iff {fault : Option ε} {a b : α} :
    unlessFault fault a = .ok b ↔ fault = none ∧ b = a := by
  cases fault with
  | some e => simp [unlessFault]
  | none => simp [unlessFault, eq_comm]

/-- A fault is not changed by what is done with the value. -/
theorem unlessFault_map (fault : Option ε) (a : α) (f : α → β) :
    (unlessFault fault a).map f = unlessFault fault (f a) := by
  cases fault with
  | some e => rfl
  | none => rfl

/-- A map over a list has the first fault of an element. -/
theorem mapM_eq_unlessFault {f : α → Except ε β} {fault : α → Option ε} {r : α → β} {l : List α}
    (hf : ∀ a ∈ l, f a = unlessFault (fault a) (r a)) :
    l.mapM f = unlessFault (l.findSome? fault) (l.map r) := by
  induction l with
  | nil => rfl
  | cons a l ih =>
    have ihl := ih fun a' ha' => hf a' (List.mem_cons_of_mem _ ha')
    rw [List.mapM_cons, hf a List.mem_cons_self, ihl, List.findSome?_cons, List.map_cons]
    cases fault a with
    | some e => rfl
    | none =>
      cases l.findSome? fault with
      | some e => rfl
      | none => rfl

end Except
