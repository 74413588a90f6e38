import Mathlib.Data.List.Forall2

/-!
# Lists and results

Facts about lists, and about the results of steps that can fail, that hold whatever the items are.
-/

namespace JsonShape

variable {α β γ ε : Type}

/-! ## Results -/

theorem map_eq_ok_iff {f : α → β} {x : Except ε α} {b : β} :
    x.map f = .ok b ↔ ∃ a, x = .ok a ∧ b = f a := by
  cases x with
  | error e => simp [Except.map]
  | ok a => simp [Except.map, eq_comm]

theorem error_of_map {f : α → β} {x : Except ε α} {e : ε} (h : x.map f = .error e) :
    x = .error e := by
  cases x with
  | error e =>
    cases h
    rfl
  | ok a => cases h

theorem mapError_eq_ok_iff {δ : Type} {f : ε → δ} {x : Except ε α} {a : α} :
    x.mapError f = .ok a ↔ x = .ok a := by
  cases x <;> simp [Except.mapError]

theorem mapM_eq_ok {f : α → Except ε β} {g : α → β} {xs : List α}
    (h : ∀ a ∈ xs, f a = .ok (g a)) : xs.mapM f = .ok (xs.map g) := by
  induction xs with
  | nil => rfl
  | cons a xs ih =>
    rw [List.mapM_cons, h a (List.mem_cons_self ..), ih fun b hb => h b (List.mem_cons_of_mem _ hb)]
    rfl

/-- A step over items that were changed, where the step does not see the change. -/
theorem mapM_map_congr {f : α → β} {g : β → Except ε γ} {k : α → Except ε γ}
    {xs : List α} (h : ∀ a ∈ xs, g (f a) = k a) : (xs.map f).mapM g = xs.mapM k := by
  induction xs with
  | nil => rfl
  | cons a xs ih =>
    rw [List.map_cons, List.mapM_cons, List.mapM_cons, h a (List.mem_cons_self ..),
      ih fun b hb => h b (List.mem_cons_of_mem _ hb)]

/-! ## Items in pairs -/

theorem exists_of_forall₂_right {R : α → β → Prop} {xs : List α} {ys : List β}
    (h : List.Forall₂ R xs ys) {y : β} (hy : y ∈ ys) : ∃ x ∈ xs, R x y := by
  induction h with
  | nil => simp at hy
  | cons hxy _ ih =>
    rcases List.mem_cons.1 hy with rfl | hy
    · exact ⟨_, List.mem_cons_self .., hxy⟩
    · obtain ⟨x, hx, h⟩ := ih hy
      exact ⟨x, List.mem_cons_of_mem _ hx, h⟩

theorem exists_of_forall₂_left {R : α → β → Prop} {xs : List α} {ys : List β}
    (h : List.Forall₂ R xs ys) {x : α} (hx : x ∈ xs) : ∃ y ∈ ys, R x y :=
  exists_of_forall₂_right h.flip hx

theorem forall₂_append_cons_congr {R : α → β → Prop} {a b : α} (h : ∀ y, R a y ↔ R b y)
    (before after : List α) {ys : List β} :
    List.Forall₂ R (before ++ a :: after) ys ↔ List.Forall₂ R (before ++ b :: after) ys := by
  induction before generalizing ys with
  | nil => simp only [List.nil_append, List.forall₂_cons_left_iff, h]
  | cons x before ih => simp only [List.cons_append, List.forall₂_cons_left_iff, ih]

/-! ## Changed items -/

/-- Lists that look alike item by item are related item by item. -/
theorem eq_map_of_map_eq_map {g : α → γ} {k : β → γ} {c : α → β} :
    ∀ {l : List α} {m : List β}, l.map g = m.map k →
      (∀ x ∈ l, ∀ y ∈ m, g x = k y → y = c x) → m = l.map c
  | [], [], _, _ => rfl
  | x :: l, y :: m, h, hc => by
    obtain ⟨hxy, hlm⟩ := List.cons.inj h
    rw [List.map_cons, hc x (by simp) y (by simp) hxy, eq_map_of_map_eq_map hlm fun a ha b hb =>
      hc a (List.mem_cons_of_mem _ ha) b (List.mem_cons_of_mem _ hb)]

theorem find?_map_congr {f : α → β} {p : β → Bool} {q : α → Bool} {xs : List α}
    (h : ∀ a ∈ xs, p (f a) = q a) : (xs.map f).find? p = (xs.find? q).map f := by
  induction xs with
  | nil => rfl
  | cons a xs ih =>
    rw [List.map_cons, List.find?_cons, List.find?_cons, h a (List.mem_cons_self ..),
      ih fun b hb => h b (List.mem_cons_of_mem _ hb)]
    cases q a <;> rfl

theorem lookup_filter_of_ne [BEq α] [LawfulBEq α] {x y : α} (h : y ≠ x) (l : List (α × β)) :
    (l.filter fun e => e.1 != x).lookup y = l.lookup y := by
  induction l with
  | nil => rfl
  | cons e l ih =>
    by_cases he : e.1 = x
    · have hne : (y == e.1) = false := by simpa [he] using h
      rw [List.filter_cons_of_neg (by simpa using he), ih, List.lookup_cons, hne]
    · rw [List.filter_cons_of_pos (by simpa using he), List.lookup_cons, List.lookup_cons, ih]

theorem lookup_map_fst [BEq α] [LawfulBEq α] {f : α → α} {x y : α} {l : List (α × β)}
    (h : ∀ e ∈ l, f e.1 = y ↔ e.1 = x) : (l.map fun e => (f e.1, e.2)).lookup y = l.lookup x := by
  induction l with
  | nil => rfl
  | cons e l ih =>
    have hkey : (y == f e.1) = (x == e.1) := by
      rw [Bool.eq_iff_iff, beq_iff_eq, beq_iff_eq, eq_comm, h e List.mem_cons_self, eq_comm]
    rw [List.map_cons, List.lookup_cons, List.lookup_cons, hkey,
      ih fun e he => h e (List.mem_cons_of_mem _ he)]

/-! ## Items that stand once -/

theorem nodup_eraseDups [BEq α] [LawfulBEq α] (xs : List α) : xs.eraseDups.Nodup := by
  induction hn : xs.length using Nat.strongRecOn generalizing xs with
  | _ n ih =>
  cases xs with
  | nil => simp
  | cons x xs =>
    rw [List.eraseDups_cons]
    have hlen := List.length_filter_le (fun y => !y == x) xs
    refine List.nodup_cons.2 ⟨by simp [List.mem_eraseDups], ih _ ?_ _ rfl⟩
    simp only [List.length_cons] at hn
    omega

theorem eraseDups_map [BEq α] [LawfulBEq α] [BEq β] [LawfulBEq β] {f : α → β} {xs : List α}
    (hf : ∀ x ∈ xs, ∀ y ∈ xs, f x = f y → x = y) :
    (xs.map f).eraseDups = xs.eraseDups.map f := by
  induction hn : xs.length using Nat.strongRecOn generalizing xs with
  | _ n ih =>
  cases xs with
  | nil => rfl
  | cons x xs =>
    have hlen := List.length_filter_le (fun y => !y == x) xs
    have hfilter : (xs.map f).filter (fun y => !y == f x) =
        (xs.filter fun y => !y == x).map f := by
      rw [List.filter_map]
      congr 1
      refine List.filter_congr fun y hy => ?_
      have hiff : f y = f x ↔ y = x :=
        ⟨hf y (List.mem_cons_of_mem _ hy) x (List.mem_cons_self ..), congrArg f⟩
      simp [beq_eq_beq, hiff]
    rw [List.map_cons, List.eraseDups_cons, List.eraseDups_cons, List.map_cons, hfilter]
    congr 1
    refine ih _ ?_ (fun y hy z hz => hf y ?_ z ?_) rfl
    · simp only [List.length_cons] at hn
      omega
    · exact List.mem_cons_of_mem _ (List.mem_filter.1 hy).1
    · exact List.mem_cons_of_mem _ (List.mem_filter.1 hz).1

end JsonShape
