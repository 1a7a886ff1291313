import CatalogChain.Proofs.Service.Endurance

/-!
# Writes that break off

Where some wait of the settings cannot be counted, there is a first one
(`WriteSettings.exists_lastTry`), and the attempt before it is the last one that a write makes.  If
the lock is held up to that attempt and longer, the write breaks off with it and has no outcome
(`Crew.broken_run`), whatever others do meanwhile, as long as they leave the entry of its key alone
and the write is not cancelled before.

So writes that do not break off (`Deployment.exists_perform?`) need settings whose waits can be
counted.
-/

namespace CatalogChain

open Call (tryAt refusals attemptLimit LastTry)

/-- **Where some wait cannot be counted**, some attempt before the last one allowed is the last. -/
theorem WriteSettings.exists_lastTry {settings : WriteSettings} (h : ¬ settings.Countable) :
    ∃ last, LastTry settings last ∧ last < attemptLimit settings := by
  obtain ⟨n, hn, hnone⟩ : ∃ n < attemptLimit settings, Call.wait? settings n = none := by
    simpa [Countable] using h
  have hbreaks : ∃ n, Call.wait? settings n = none := ⟨n, hnone⟩
  have hlt : Nat.find hbreaks < attemptLimit settings := (Nat.find_min' hbreaks hnone).trans_lt hn
  -- nobody waits before the first attempt
  have hpos : 1 ≤ Nat.find hbreaks := by
    rw [Nat.one_le_iff_ne_zero, Ne, Nat.find_eq_zero]
    exact Call.wait?_ne_none_iff.mpr (by rw [Nat.mul_zero]; decide)
  refine ⟨Nat.find hbreaks, ⟨hpos, hlt.le, ?_, fun _ => Nat.find_spec hbreaks⟩, hlt⟩
  exact Call.wait?_ne_none_iff.mp (Nat.find_min hbreaks (by omega))

namespace Crew

variable {σ : Supply} {others : Nat → Service → Service} {settings : WriteSettings}
  {start free last : Nat} {cancelAt : Option Nat} {r : Request}
  (hothers : ∀ i, Considerate r.lockKey (others i)) (hlast : LastTry settings last)
  (hlt : last < attemptLimit settings) (hheld : tryAt settings start last < free)
  (hcancel : ∀ t, cancelAt = some t → tryAt settings start last ≤ t)
include hothers hlast hlt hheld hcancel

/-- **A write whose lock is held too long breaks off** with its last attempt: by induction on the
attempts that are left. -/
theorem broken_run {d : Deployment} {n m : Nat} {call : Call}
    (hd : d.Awaits settings r.lockKey free) (hm : m < last)
    (hnow : tryAt settings start (m + 1) = d.now)
    (hcall : Call.Leads σ d.now false d.service call [] d.service ⟨r, .attempting (m + 1)⟩)
    (hn : 2 * (last - m) ≤ n) :
    let result := (lone d false cancelAt [⟨0, call⟩] []).runAmid σ others n
    refusals settings start m ++ result.1 = refusals settings start last ∧
      result.2.outcome? 0 = none ∧ result.2.deployment.now = tryAt settings start last := by
  induction hleft : last - m using Nat.strong_induction_on generalizing m n d call with
  | _ left ih =>
  obtain ⟨n, rfl⟩ : ∃ n', n = n' + 2 := ⟨n - 2, by omega⟩
  have hearly : d.now < free := by
    rw [← hnow]
    exact (Call.tryAt_mono settings start hm).trans_lt hheld
  obtain ⟨i, hi, hinstant, htries, hend⟩ := Call.resume_refused hd.settings_eq hlast
    ((hd.frees d.now (Nat.le_refl _)).trans (decide_eq_true hearly)) (Nat.succ_pos m) hm hnow hcall
  rcases hend with ⟨rfl, hresume⟩ | ⟨hilast, hlater, hresume⟩
  · obtain ⟨result, hrun, hout, hend⟩ := runAmid_over others (n + 1) cancelAt hresume
      (Call.isOver_spent settings r i)
    rw [hrun]
    refine ⟨htries, ?_, hend.trans hinstant.symm⟩
    rw [hout, Call.spent, if_pos hlt]
    rfl
  · -- others have their turn before the write sleeps on
    obtain ⟨d', hrun, hd', hnow'⟩ : ∃ d', { d with service := others (n + 1) d.service } = d' ∧
        d'.Awaits settings r.lockKey free ∧ d.now = d'.now :=
      ⟨_, rfl, hd.disturbed (hothers (n + 1)), rfl⟩
    rw [runAmid_asleep hresume rfl, hrun]
    simp only [← List.append_assoc]
    rw [show refusals settings start m ++ _ = _ from htries]
    rw [hnow'] at hlater
    have hstage : Call.stage ⟨r, .asleep i (tryAt settings start (i + 1))⟩ =
      .asleep i (tryAt settings start (i + 1)) := rfl
    have hwake : ∀ t, cancelAt = some t → tryAt settings start (i + 1) ≤ t := fun t ht =>
      (Call.tryAt_mono settings start hilast).trans (hcancel t ht)
    rw [runAmid_wake hstage hlater hwake]
    exact ih _ (by omega) ((hd'.passTo hlater.le).disturbed (hothers n)) hilast rfl
      (Call.leads_asleep (Nat.le_refl _)) (by omega) rfl

end Crew

namespace Deployment

variable {σ : Supply} {d : Deployment} {r : Request} {last : Nat} (hr : r.needsLock = true)
  (hv : r.check = .ok ()) (hlast : LastTry d.service.settings last)
  (hlt : last < attemptLimit d.service.settings)
  (hheld : tryAt d.service.settings d.now last < d.service.locks.freeFrom r.lockKey)
include hr hv hlast hlt hheld

/-- **A write among others breaks off** with the last attempt that it can make. -/
theorem broken_performAmid {others : Nat → Service → Service}
    (hothers : ∀ i, Considerate r.lockKey (others i)) {cancellation : Cancellation}
    (hcancel : ¬ cancellation.Before (tryAt d.service.settings d.now last)) :
    let result := d.performAmid σ others cancellation r
    result.1 = refusals d.service.settings d.now last ∧ result.2.outcome? 0 = none ∧
      result.2.deployment.now = tryAt d.service.settings d.now last := by
  have hbegin : Crew.ofRequests d cancellation false 1 [r] =
      Crew.lone d false cancellation.dueAt? [⟨0, .ofRequest r⟩] [] := by
    cases cancellation with
    | never | due => rfl
    | already => exact absurd trivial hcancel
  have hdue : ∀ t, cancellation.dueAt? = some t → tryAt d.service.settings d.now last ≤ t := by
    cases cancellation with
    | never | already => exact fun t ht => nomatch ht
    | due t => exact fun t' ht' => Option.some.inj ht' ▸ Nat.not_lt.mp hcancel
  have hrun := Crew.broken_run (σ := σ) hothers hlast hlt hheld hdue ⟨rfl, d.freesAt_freeFrom _⟩
    hlast.pos (Call.tryAt_one _ _) (Call.leads_ofRequest hr hv)
    (show 2 * (last - 0) ≤ Crew.longestWork d.service.settings 1 by
      unfold Crew.longestWork
      omega)
  rw [performAmid, hbegin]
  exact hrun

/-- **A write that breaks off has no outcome.** -/
theorem perform?_eq_none : d.perform? σ .never r = none := by
  have hidle : ∀ _ : Nat, Considerate r.lockKey fun s => s := fun _ => ⟨fun _ => rfl, fun _ => rfl⟩
  rw [d.perform?_eq_performAmid σ .never r]
  rw [(broken_performAmid hr hv hlast hlt hheld hidle id).2.1]
  rfl

end Deployment

end CatalogChain
