import Mathlib.Algebra.Order.BigOperators.Group.List
import Mathlib.Algebra.Order.Group.Nat
import Mathlib.Algebra.Ring.Nat
import PayrollAgent.Lib.Prog

namespace PayrollAgent.Lib

namespace Prog

variable {Op : Type} {Ans : Op → Type} {ε α β σ τ : Type}

def Monitor.both (m : Monitor Op Ans ε σ) (m' : Monitor Op Ans ε τ) : Monitor Op Ans ε (σ × τ) :=
  ⟨fun s op => m.allows s.1 op ∧ m'.allows s.2 op, fun s op x => (m.next s.1 op x, m'.next s.2 op x)⟩

theorem Follows.both {m : Monitor Op Ans ε σ} {m' : Monitor Op Ans ε τ} {Q : σ → Except ε α → Prop}
    {Q' : τ → Except ε α → Prop} {p : Prog Op Ans ε α} {s : σ} {t : τ} (h : Follows m Q p s)
    (h' : Follows m' Q' p t) : Follows (m.both m') (fun s x => Q s.1 x ∧ Q' s.2 x) p (s, t) := by
  induction p generalizing s t with
  | pure a => exact ⟨h, h'⟩
  | raise e => exact ⟨h, h'⟩
  | call op k ih => exact ⟨⟨h.1, h'.1⟩, fun x => ih x (h.2 x) (h'.2 x)⟩

end Prog

/-- What a call costs, and the answers that grant a new budget. -/
structure Tariff (Op : Type) (Ans : Op → Type) (ε : Type) where
  price : Op → Nat
  grant : (op : Op) → Except ε (Ans op) → Option Nat

namespace Tariff

variable {Op : Type} {Ans : Op → Type} {ε α β : Type} {tariff : Tariff Op Ans ε}

def monitor (tariff : Tariff Op Ans ε) : Prog.Monitor Op Ans ε Nat :=
  ⟨fun n op => tariff.price op ≤ n, fun n op x => (tariff.grant op x).getD (n - tariff.price op)⟩

variable {p : Prog Op Ans ε α} {f : α → Prog Op Ans ε β} {k l n : Nat} {op : Op}

/-- Every path of the program costs at most `k`. -/
def Costs (tariff : Tariff Op Ans ε) (k : Nat) (p : Prog Op Ans ε α) : Prop :=
  ∀ n, k ≤ n → Prog.Follows tariff.monitor (fun left _ => n ≤ left + k) p n

theorem next_of_grant_none {x : Except ε (Ans op)} (hgrant : ∀ x, tariff.grant op x = none) :
    tariff.monitor.next n op x = n - tariff.price op := by
  simp only [monitor, hgrant, Option.getD_none]

theorem Costs.pure (a : α) : tariff.Costs k (Pure.pure a : Prog Op Ans ε α) :=
  fun _ _ => Nat.le_add_right _ _

theorem Costs.raise (e : ε) : tariff.Costs k (.raise e : Prog Op Ans ε α) :=
  fun _ _ => Nat.le_add_right _ _

theorem Costs.perform (hgrant : ∀ x, tariff.grant op x = none) :
    tariff.Costs (tariff.price op) (Prog.perform op : Prog Op Ans ε (Ans op)) := by
  intro n hn
  refine Prog.follows_perform.mpr ⟨hn, fun x => ?_⟩
  rw [next_of_grant_none hgrant]
  omega

theorem Costs.mono (h : tariff.Costs k p) (hkl : k ≤ l) : tariff.Costs l p := by
  intro n hl
  refine (h n (hkl.trans hl)).mono fun left _ hleft => ?_
  omega

theorem Costs.bind (hp : tariff.Costs k p) (hf : ∀ a, tariff.Costs l (f a)) :
    tariff.Costs (k + l) (p >>= f) := by
  intro n hn
  refine (hp n (by omega)).bind (fun left a hleft => ?_) fun left e hleft => by omega
  refine (hf a left (by omega)).mono fun left' _ hrest => ?_
  omega

theorem Costs.free (hp : tariff.Costs 0 p) (hf : ∀ a, tariff.Costs k (f a)) : tariff.Costs k (p >>= f) :=
  (hp.bind hf).mono (Nat.zero_add k).le

theorem Costs.catching {h : ε → Prog Op Ans ε α} (hp : tariff.Costs k p)
    (hh : ∀ e, tariff.Costs 0 (h e)) : tariff.Costs k (p.catching h) := by
  intro n hn
  refine (hp n hn).catching (fun left a hleft => hleft) fun left e hleft => ?_
  refine (hh e left (Nat.zero_le _)).mono fun left' _ hrest => ?_
  omega

theorem Costs.ite {c : Prop} [Decidable c] {q : Prog Op Ans ε α} (hp : tariff.Costs k p)
    (hq : tariff.Costs k q) :
    tariff.Costs k (if c then p else q) := fun n hn => .ite (fun _ => hp n hn) fun _ => hq n hn

theorem follows_grant {f : Ans op → Prog Op Ans ε β} {Q : Nat → Except ε β → Prop}
    (hprice : tariff.price op ≤ n)
    (hf : ∀ a, Prog.Follows tariff.monitor Q (f a) (tariff.monitor.next n op (.ok a)))
    (herror : ∀ left e, Q left (.error e)) : Prog.Follows tariff.monitor Q (Prog.perform op >>= f) n :=
  Prog.follows_perform_bind.mpr ⟨hprice, hf, fun e => herror _ e⟩

end Tariff

section Groups

variable {α κ : Type} [DecidableEq κ] (key : α → κ) (w : α → Nat) (l : List α)

theorem sum_le_groups (ks : List κ) (h : ∀ a ∈ l, w a ≠ 0 → key a ∈ ks) :
    (l.map w).sum ≤ (ks.map fun k => ((l.filter fun a => key a = k).map w).sum).sum := by
  induction l with
  | nil => simp
  | cons a l ih =>
      have hrest := ih fun b hb => h b (List.mem_cons_of_mem _ hb)
      have hsplit : ∀ k, (((a :: l).filter fun b => key b = k).map w).sum =
          (if key a = k then w a else 0) + ((l.filter fun b => key b = k).map w).sum := by
        intro k
        by_cases hk : key a = k
        · rw [List.filter_cons_of_pos (by simpa using hk), List.map_cons, List.sum_cons, if_pos hk]
        · rw [List.filter_cons_of_neg (by simpa using hk), if_neg hk, Nat.zero_add]
      simp only [hsplit, List.sum_map_add]
      rw [List.map_cons, List.sum_cons]
      have hhead : w a ≤ (ks.map fun k => if key a = k then w a else 0).sum := by
        by_cases hzero : w a = 0
        · rw [hzero]
          exact Nat.zero_le _
        · have hmem : w a ∈ ks.map fun k => if key a = k then w a else 0 :=
            List.mem_map.mpr ⟨key a, h a List.mem_cons_self hzero, if_pos rfl⟩
          exact List.single_le_sum (fun _ _ => Nat.zero_le _) _ hmem
      omega

/-- Where each group weighs at most `b` and every weight belongs to a marked
group, the whole weighs at most `b` for each mark. -/
theorem sum_le_marks {q : α → Bool} {b : Nat} (hb : ∀ k, ((l.filter fun a => key a = k).map w).sum ≤ b)
    (hq : ∀ a ∈ l, w a ≠ 0 → ∃ c ∈ l, q c = true ∧ key c = key a) : (l.map w).sum ≤ l.countP q * b := by
  have hgroups := sum_le_groups key w l ((l.filter q).map key) fun a ha hw => by
    obtain ⟨c, hc, hmark, hkey⟩ := hq a ha hw
    exact List.mem_map.mpr ⟨c, List.mem_filter.mpr ⟨hc, hmark⟩, hkey⟩
  refine hgroups.trans ?_
  have hlength : ∀ ks : List κ, (ks.map fun k =>
    ((l.filter fun a => key a = k).map w).sum).sum ≤ ks.length * b := by
    intro ks
    induction ks with
    | nil => simp
    | cons k ks ih =>
        rw [List.map_cons, List.sum_cons, List.length_cons, Nat.succ_mul]
        have hk := hb k
        omega
  rw [List.countP_eq_length_filter]
  simpa using hlength ((l.filter q).map key)

end Groups

end PayrollAgent.Lib
