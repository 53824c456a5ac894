import Mathlib.Data.List.Infix
import Mathlib.Tactic.TypeStar

/-! Phrases in a list of pieces, as a single pass over the list replaces them. A piece has a key,
which is compared with the words of the phrase; what else is asked of the pieces of an occurrence
is any condition on them.

Proved: a pass changes nothing about the occurrences of a phrase that neither the phrase replaced
nor its replacement can overlap, and it leaves no occurrence of the phrase it replaces. -/

namespace LiberNovus.Phrases

variable {α K : Type*} (key : α → K)

/-- The list starts with the phrase `q`, in pieces that `G` holds of. -/
def Starts (q : List K) (G : List α → Prop) (l : List α) : Prop :=
  ∃ m b, l = m ++ b ∧ m.map key = q ∧ G m

/-- The phrase occurs somewhere in the list. -/
def Occurs (q : List K) (G : List α → Prop) (l : List α) : Prop :=
  ∃ a b, l = a ++ b ∧ Starts key q G b

/-- `l'` is `l` after a pass from left to right that replaces `p` by `r`. -/
inductive Rewrites (p r : List K) (S : List α → Prop) : List α → List α → Prop
  | nil : Rewrites p r S [] []
  | keep {x : α} {l l' : List α} : ¬ Starts key p S (x :: l) → Rewrites p r S l l' →
      Rewrites p r S (x :: l) (x :: l')
  | replace {m n l l' : List α} : m.map key = p → S m → n.map key = r → Rewrites p r S l l' →
      Rewrites p r S (m ++ l) (n ++ l')

/-- No occurrence of `q` starts in pieces whose keys are `s`. -/
def Apart (s q : List K) : Prop := ∀ u, u <:+ s → u ≠ [] → ¬ u <+: q ∧ ¬ q <+: u

instance [DecidableEq K] (s q : List K) : Decidable (Apart s q) :=
  decidable_of_iff (∀ u ∈ s.tails, u ≠ [] → ¬ u <+: q ∧ ¬ q <+: u) <| by
    simp only [Apart, List.mem_tails]

variable {key} {p q r : List K} {G S : List α → Prop} {l l' m n : List α} {x : α}

theorem occurs_nil (hq : q ≠ []) : ¬ Occurs key q G [] := by
  rintro ⟨a, b, hab, m, b', rfl, rfl, -⟩
  simp only [List.nil_eq, List.append_eq_nil_iff] at hab
  exact hq (by rw [hab.2.1, List.map_nil])

theorem occurs_cons : Occurs key q G (x :: l) ↔ Starts key q G (x :: l) ∨ Occurs key q G l := by
  constructor
  · rintro ⟨a, b, hab, hb⟩
    cases a with
    | nil => exact Or.inl (by rwa [hab])
    | cons y a =>
      rw [List.cons_append, List.cons.injEq] at hab
      exact Or.inr ⟨a, b, hab.2, hb⟩
  · rintro (h | ⟨a, b, rfl, h⟩)
    · exact ⟨[], x :: l, rfl, h⟩
    · exact ⟨x :: a, b, rfl, h⟩

theorem Occurs.mono {G' : List α → Prop} (h : Occurs key q G l) (hG : ∀ m, G m → G' m) :
    Occurs key q G' l := by
  obtain ⟨a, b, hl, m, b', hb, hm, hGm⟩ := h
  exact ⟨a, b, hl, m, b', hb, hm, hG m hGm⟩

/-- An occurrence cannot start in pieces that are apart from the phrase. -/
theorem not_starts_append (hm : Apart (m.map key) q) (hne : m ≠ []) :
    ¬ Starts key q G (m ++ l) := by
  rintro ⟨m', b, hab, rfl, -⟩
  obtain ⟨hpre, hpre'⟩ := hm (m.map key) List.suffix_rfl (by simpa using hne)
  rw [List.append_eq_append_iff] at hab
  rcases hab with ⟨as, rfl, -⟩ | ⟨bs, rfl, -⟩
  · exact hpre (by rw [List.map_append]; exact List.prefix_append _ _)
  · exact hpre' (by rw [List.map_append]; exact List.prefix_append _ _)

theorem Apart.tail {w : K} {s : List K} (h : Apart (w :: s) q) : Apart s q :=
  fun u hu => h u (hu.trans (List.suffix_cons w s))

theorem occurs_append (hm : Apart (m.map key) q) : Occurs key q G (m ++ l) ↔ Occurs key q G l := by
  induction m with
  | nil => rfl
  | cons x m ih =>
    rw [List.cons_append, occurs_cons, ← List.cons_append,
      or_iff_right (not_starts_append hm (List.cons_ne_nil x m)), ih hm.tail]

/-- The key of the first piece. -/
theorem head_key {s : List K} {w : K} {b : List α} (hm : m.map key = s) (hs : s ≠ [])
    (hmb : m ++ l = x :: b) (hw : s.head? ≠ some w) : key x ≠ w := by
  subst hm
  cases m with
  | nil => exact absurd rfl hs
  | cons y m =>
    rw [List.cons_append, List.cons.injEq] at hmb
    rintro rfl
    exact hw (by rw [hmb.1, List.map_cons, List.head?_cons])

/-- The pieces that neither `p` nor `r` can start with are kept, and nothing is put into them. -/
theorem Rewrites.prefix_iff (h : Rewrites key p r S l l') (hp : p ≠ []) (hr : r ≠ [])
    (hm : ∀ w ∈ m.map key, p.head? ≠ some w ∧ r.head? ≠ some w) : m <+: l' ↔ m <+: l := by
  induction m generalizing l l' with
  | nil => simp
  | cons x m ih =>
    obtain ⟨⟨hpx, hrx⟩, htail⟩ := List.forall_mem_cons.mp hm
    cases h with
    | nil => rfl
    | keep _ h => rw [List.cons_prefix_cons, List.cons_prefix_cons, ih h htail]
    | replace hkey _ hkey' _ =>
      constructor
      · rintro ⟨b, hb⟩
        exact absurd rfl (head_key hkey' hr hb.symm hrx)
      · rintro ⟨b, hb⟩
        exact absurd rfl (head_key hkey hp hb.symm hpx)

theorem Rewrites.starts_cons_iff (h : Rewrites key p r S l l') (hp : p ≠ []) (hr : r ≠ [])
    (hq : q ≠ []) (htail : ∀ w ∈ q.tail, p.head? ≠ some w ∧ r.head? ≠ some w) :
    Starts key q G (x :: l') ↔ Starts key q G (x :: l) := by
  have hkept : ∀ m, m.map key = q → (m <+: x :: l' ↔ m <+: x :: l) := by
    rintro m rfl
    cases m with
    | nil => simp
    | cons y m => rw [List.cons_prefix_cons, List.cons_prefix_cons, h.prefix_iff hp hr htail]
  constructor
  · rintro ⟨m, b, hb, hm, hG⟩
    obtain ⟨b', hb'⟩ := (hkept m hm).mp ⟨b, hb.symm⟩
    exact ⟨m, b', hb'.symm, hm, hG⟩
  · rintro ⟨m, b, hb, hm, hG⟩
    obtain ⟨b', hb'⟩ := (hkept m hm).mpr ⟨b, hb.symm⟩
    exact ⟨m, b', hb'.symm, hm, hG⟩

/-- Other phrases occur as before. -/
theorem Rewrites.occurs_iff (h : Rewrites key p r S l l') (hp : p ≠ []) (hr : r ≠ []) (hq : q ≠ [])
    (htail : ∀ w ∈ q.tail, p.head? ≠ some w ∧ r.head? ≠ some w) (hrq : Apart r q)
    (hpq : ∀ m l, m.map key = p → S m → (Occurs key q G (m ++ l) ↔ Occurs key q G l)) :
    Occurs key q G l' ↔ Occurs key q G l := by
  induction h with
  | nil => rfl
  | keep _ h ih => rw [occurs_cons, occurs_cons, ih, h.starts_cons_iff hp hr hq htail]
  | replace hkey hS hkey' _ ih => rw [occurs_append (by rwa [hkey']), hpq _ _ hkey hS, ih]

/-- The phrase itself is gone. -/
theorem Rewrites.not_occurs (h : Rewrites key p r S l l') (hp : p ≠ []) (hr : r ≠ [])
    (htail : ∀ w ∈ p.tail, p.head? ≠ some w ∧ r.head? ≠ some w) (hrp : Apart r p) :
    ¬ Occurs key p S l' := by
  induction h with
  | nil => exact occurs_nil hp
  | keep hnot h ih =>
    rw [occurs_cons, h.starts_cons_iff hp hr hp htail]
    exact not_or.mpr ⟨hnot, ih⟩
  | replace _ _ hkey' _ ih => rwa [occurs_append (by rwa [hkey'])]

/-- The occurrences of the phrase that the pass does not replace are kept. -/
theorem occurs_append_self (hm : m.map key = p) (hp : Apart p.tail p) (hG : ∀ m, S m → ¬ G m)
    (hS : S m) : Occurs key p G (m ++ l) ↔ Occurs key p G l := by
  subst hm
  cases m with
  | nil => rfl
  | cons x m =>
    rw [List.cons_append, occurs_cons, or_iff_right, occurs_append hp]
    rintro ⟨m', b, hb, hkey, hGm⟩
    have hlen : (x :: m).length = m'.length := by
      rw [← List.length_map key, ← hkey, List.length_map]
    rw [← List.cons_append] at hb
    obtain ⟨rfl, -⟩ := List.append_inj hb hlen
    exact hG _ hS hGm

/-- Occurrences in pieces that were changed beside their keys. -/
theorem occurs_map {f : α → α} (hf : ∀ x, key (f x) = key x) :
    Occurs key q G (l.map f) ↔ Occurs key q (fun m => G (m.map f)) l := by
  have hkeys : ∀ m : List α, (m.map f).map key = m.map key := fun m => by
    rw [List.map_map]
    exact List.map_congr_left fun x _ => hf x
  constructor
  · rintro ⟨a, b, hab, m, b', rfl, hm, hG⟩
    obtain ⟨a, b, rfl, rfl, hb⟩ := List.map_eq_append_iff.mp hab
    obtain ⟨m, b', rfl, rfl, rfl⟩ := List.map_eq_append_iff.mp hb
    exact ⟨a, m ++ b', rfl, m, b', rfl, by rwa [hkeys] at hm, hG⟩
  · rintro ⟨a, b, rfl, m, b', rfl, hm, hG⟩
    exact ⟨a.map f, (m ++ b').map f, List.map_append, m.map f, b'.map f, List.map_append,
      by rwa [hkeys], hG⟩

end LiberNovus.Phrases
