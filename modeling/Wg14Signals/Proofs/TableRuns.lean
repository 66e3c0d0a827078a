import Wg14Signals.VerstableRuns
import Wg14Signals.Proofs.TableSizes
import Wg14Signals.Proofs.TableSweep

namespace Wg14Signals.VtTable
open Lib

variable {κ ν : Type} {hashFn : κ → BitVec 64} {t u : VtTable κ ν} {key : κ} {val : ν} {itr : VtItr}
  {m : κ → Option ν} {op : VtOp κ ν} {b : Nat}

theorem entryAt_ok (hend : itr.isEnd = false) (hb : t.Holds itr.metadatum key val) :
    t.entryAt itr = .ok (some (key, val)) := by
  unfold entryAt
  rw [if_neg (Bool.eq_false_iff.mp hend)]
  exact bind_ok.mpr ⟨_, readBucket_ok hb.2, rfl⟩

theorem entryAt_end : t.entryAt .endItr = .ok none := rfl

theorem lists_entries (ht : Stored t) (hm : t.Maps m) : Lists m t.entries where
  nodup := nodup_entries ht
  mem k v := (mem_entries ht).trans (hm k v).symm

theorem Lists.perm {l l' : List (κ × ν)} (hl : Lists m l) (hp : l'.Perm l) : Lists m l' where
  nodup := (hp.map Prod.fst).nodup_iff.mpr hl.nodup
  mem k v := hp.mem_iff.trans (hl.mem k v)

variable [DecidableEq κ]

/-- An answer is one a finite map would give, and the table has become what that map has.
It can be relied on further, unless it ran out of memory with too many keys. -/
structure Answered (hashFn : κ → BitVec 64) (t : VtTable κ ν) (m : κ → Option ν) (op : VtOp κ ν)
    (answer : VtAnswer κ ν) (u : VtTable κ ν) (m' : κ → Option ν) : Prop where
  means : op.Means m answer m'
  maps : u.Maps m'
  wf : (op.inserts = true → answer = .entry none → t.keyCount < vtDisplacementLimit) → u.Wf hashFn
  buckets : op.keepsBuckets = true → t.bucketCount ≤ u.bucketCount

theorem Unstored.wf (hu : Unstored m key itr t u) (hw : t.Wf hashFn)
    (hfew : t.keyCount < vtDisplacementLimit) : u.Wf hashFn :=
  (hu.few hfew).1.symm ▸ hw

/-- A table answers as a finite map does. -/
theorem apply_ok (hw : t.Wf hashFn) (hm : t.Maps m) (op : VtOp κ ν) :
    ∃ answer u m', t.apply hashFn op = .ok (answer, u) ∧ Answered hashFn t m op answer u m' := by
  cases op with
  | insert key val mallocs =>
    obtain ⟨itr, u, rest, hrun, hle, hput | hun⟩ := insertGrowing_ok key val true
      (mallocs.length + 1) t mallocs hw hm (Nat.lt_succ_self _)
    · exact ⟨_, u, _, bind_ok.mpr ⟨_, hrun, bind_ok.mpr ⟨_, entryAt_ok hput.not_end hput.holds, rfl⟩⟩,
        .insert key val mallocs, hput.maps, fun _ => hput.wf, fun _ => hle⟩
    · obtain rfl := hun.at_end
      exact ⟨_, u, m, bind_ok.mpr ⟨_, hrun, bind_ok.mpr ⟨_, entryAt_end, rfl⟩⟩,
        .notInserted key val mallocs hun.absent, hun.maps, fun hfew => hun.wf hw (hfew rfl rfl),
        fun _ => hle⟩
  | getOrInsert key val mallocs =>
    obtain ⟨itr, u, rest, hrun, hle, hput | hun⟩ := insertGrowing_ok key val false
      (mallocs.length + 1) t mallocs hw hm (Nat.lt_succ_self _)
    · exact ⟨_, u, _, bind_ok.mpr ⟨_, hrun, bind_ok.mpr ⟨_, entryAt_ok hput.not_end hput.holds, rfl⟩⟩,
        .getOrInsert key val mallocs, hput.maps, fun _ => hput.wf, fun _ => hle⟩
    · obtain rfl := hun.at_end
      exact ⟨_, u, m, bind_ok.mpr ⟨_, hrun, bind_ok.mpr ⟨_, entryAt_end, rfl⟩⟩,
        .notGot key val mallocs hun.absent, hun.maps, fun hfew => hun.wf hw (hfew rfl rfl),
        fun _ => hle⟩
  | get key =>
    refine ⟨.entry ((m key).map (key, ·)), t, m, ?_, .get key, hm, fun _ => hw, fun _ => Nat.le_refl _⟩
    cases hk : m key with
    | none =>
      exact bind_ok.mpr ⟨_, hw.get_absent (hm.none_iff.mp hk), bind_ok.mpr ⟨_, entryAt_end, rfl⟩⟩
    | some val =>
      obtain ⟨b, hb⟩ := (hm key val).mp hk
      exact bind_ok.mpr ⟨_, hw.get_found hb,
        bind_ok.mpr ⟨_, entryAt_ok (itr_not_end hb.1.1) hb, rfl⟩⟩
  | size =>
    refine ⟨_, t, m, rfl, ?_, hm, fun _ => hw, fun _ => Nat.le_refl _⟩
    rw [size, ← length_entries hw.toStored]
    exact .size _ (lists_entries hw.toStored hm)
  | erase key =>
    obtain ⟨u, hrun, hu, hmaps, hmask⟩ := erase_ok key hw hm
    exact ⟨_, u, _, bind_ok.mpr ⟨_, hrun, rfl⟩, .erase key, hmaps, fun _ => hu,
      fun _ => (bucketCount_congr hmask).ge⟩
  | reserve size mallocs =>
    obtain ⟨ok, u, rest, hrun, hu, -, -, hle⟩ := reserve_ok size mallocs hw
    exact ⟨_, u, m, bind_ok.mpr ⟨_, hrun, rfl⟩, .reserve size mallocs ok, hm.of_iff hu.contents,
      fun _ => hu.wf, fun _ => hle⟩
  | shrink mallocs =>
    obtain ⟨ok, u, rest, hrun, hu, -⟩ := shrink_ok mallocs hw
    exact ⟨_, u, m, bind_ok.mpr ⟨_, hrun, rfl⟩, .shrink mallocs ok, hm.of_iff hu.contents,
      fun _ => hu.wf, fun h => absurd h Bool.false_ne_true⟩
  | clear =>
    obtain ⟨hu, hmaps, hmask⟩ := clear_ok hw
    exact ⟨_, t.clear, _, rfl, .clear, hmaps, fun _ => hu, fun _ => (bucketCount_congr hmask).ge⟩
  | cleanup =>
    obtain ⟨hu, hmaps⟩ := cleanup_ok hw
    exact ⟨_, t.cleanup, _, rfl, .cleanup, hmaps, fun _ => hu, fun h => absurd h Bool.false_ne_true⟩
  | sweep keep =>
    obtain ⟨visited, u, hrun, hperm, hu, hmask, hcontents⟩ := sweep_ok hw keep
    refine ⟨_, u, _, bind_ok.mpr ⟨_, hrun, rfl⟩,
      .sweep keep visited ((lists_entries hw.toStored hm).perm hperm), fun k v => ?_, fun _ => hu,
      fun _ => (bucketCount_congr hmask).ge⟩
    rw [hcontents, ← hm, keepIn, Option.filter_eq_some_iff]

end Wg14Signals.VtTable

namespace Wg14Signals.VtHistory
open Lib VtTable

variable {κ ν : Type} [DecidableEq κ] {hashFn : κ → BitVec 64} {s : VtHistory κ ν}

/-- A reached table holds the finite map its answers have described. -/
theorem Reached.explained (hr : s.Reached hashFn) :
    ∃ m, s.log.Explains m ∧ s.table.Wf hashFn ∧ s.table.Maps m := by
  refine Run.invariant (I := fun s => ∃ m, s.log.Explains m ∧ s.table.Wf hashFn ∧ s.table.Maps m) hr
    ⟨fun _ => none, .nil, init_wf hashFn, init_maps⟩ ?_
  rintro s op s' ⟨m, hlog, hw, hm⟩ hsafe hstep
  obtain ⟨answer, u, m', hrun, ha⟩ := apply_ok hw hm op
  obtain ⟨⟨answer', u'⟩, hrun', hs'⟩ := bind_ok.mp hstep
  obtain ⟨rfl, rfl⟩ := Prod.mk.inj (Except.ok.inj (hrun.symm.trans hrun'))
  obtain rfl := pure_ok.mp hs'
  exact ⟨m', hlog.cons ha.means, ha.wf fun hins heq => hsafe hins u (heq ▸ hrun), ha.maps⟩

/-- A table of numbers, after an insertion for which it had to allocate. -/
theorem reached_one : ∃ s : VtHistory Nat Nat,
    s.Reached (fun k => vtHashInteger (.ofNat 64 k)) ∧ s.table.size = 1 := by
  have hends : ends (step fun k => vtHashInteger (.ofNat 64 k))
      (fun (s : VtHistory Nat Nat) _ => decide (s.table.keyCount < vtDisplacementLimit))
      (fun s => s.table.size == 1) initial [.insert 5 7 [true]] = true := by decide +kernel
  obtain ⟨s, hrun, hone⟩ := run_of_ends (r := Safe _)
    (fun _ _ hfew _ _ _ => of_decide_eq_true hfew) hends
  exact ⟨s, hrun, beq_iff_eq.mp hone⟩

/-- No call of a run gives buckets back. -/
def KeepsBuckets (hashFn : κ → BitVec 64) (s : VtHistory κ ν) (op : VtOp κ ν) : Prop :=
  Safe hashFn s op ∧ op.keepsBuckets = true

/-- What has been reserved stays reserved. -/
theorem run_keeps_room {s s' : VtHistory κ ν} {size : Nat} (hw : s.table.Wf hashFn)
    (hfit : exceedsMaxLoad size s.table.bucketCount = false)
    (hrun : Run (step hashFn) (KeepsBuckets hashFn) s s') :
    s'.table.Wf hashFn ∧ exceedsMaxLoad size s'.table.bucketCount = false := by
  apply hrun.invariant (I := fun s => s.table.Wf hashFn ∧
    exceedsMaxLoad size s.table.bucketCount = false)
  · exact ⟨hw, hfit⟩
  rintro s op s' ⟨hw, hfit⟩ ⟨hsafe, hkeeps⟩ hstep
  obtain ⟨m, hm⟩ := hw.maps
  obtain ⟨answer, u, m', hrun, ha⟩ := apply_ok hw hm op
  obtain ⟨⟨answer', u'⟩, hrun', hs'⟩ := bind_ok.mp hstep
  obtain ⟨rfl, rfl⟩ := Prod.mk.inj (Except.ok.inj (hrun.symm.trans hrun'))
  obtain rfl := pure_ok.mp hs'
  exact ⟨ha.wf fun hins heq => hsafe hins u (heq ▸ hrun), exceedsMaxLoad_anti hfit (ha.buckets hkeeps)⟩

/-- Shrinking loses no key. While the displacement limit is out of reach it leaves the least
number of buckets that are not overloaded; without memory it leaves the table alone. -/
theorem shrink_least (hr : s.Reached hashFn) (mallocs : List Bool) :
    ∃ ok u rest, s.table.shrink hashFn mallocs = .ok (ok, u, rest) ∧
      (∀ k w, u.Has k w ↔ s.table.Has k w) ∧ u.size = s.table.size ∧ (ok = false → u = s.table) ∧
      (ok = true → s.table.size ≤ vtDisplacementLimit →
        (s.table.size = 0 → u.bucketCount = 0) ∧
        (s.table.size ≠ 0 → ∃ n, 3 ≤ n ∧ u.bucketCount = 2 ^ n ∧
          ∀ n', 3 ≤ n' → (exceedsMaxLoad s.table.size (2 ^ n') = false ↔ n ≤ n'))) := by
  obtain ⟨-, -, hw, -⟩ := hr.explained
  obtain ⟨ok, u, rest, hrun, hu, hleast, hsame⟩ := shrink_ok mallocs hw
  refine ⟨ok, u, rest, hrun, hu.contents, hu.count, hsame, fun hok hfew => ⟨fun h0 => ?_, fun hne => ?_⟩⟩
  · exact (hleast hok hfew).trans (minBucketCountForSize_eq_zero.mpr h0)
  · obtain ⟨n, hn3, hn, hfit, hmin⟩ := minBucketCountForSize_ok hne
    refine ⟨n, hn3, (hleast hok hfew).trans hn, fun n' hn' => ⟨hmin n' hn', fun hle => ?_⟩⟩
    exact exceedsMaxLoad_anti hfit (Nat.pow_le_pow_right (by decide) hle)

theorem shrink_least_one :
    ∃ s : VtHistory Nat Nat, s.table.size = 1 ∧ ∃ ok u rest,
      s.table.shrink (fun k => vtHashInteger (.ofNat 64 k)) [true] = .ok (ok, u, rest) ∧
      (∀ k w, u.Has k w ↔ s.table.Has k w) ∧ u.size = s.table.size ∧ (ok = false → u = s.table) ∧
      (ok = true → s.table.size ≤ vtDisplacementLimit →
        (s.table.size = 0 → u.bucketCount = 0) ∧
        (s.table.size ≠ 0 → ∃ n, 3 ≤ n ∧ u.bucketCount = 2 ^ n ∧
          ∀ n', 3 ≤ n' → (exceedsMaxLoad s.table.size (2 ^ n') = false ↔ n ≤ n'))) := by
  obtain ⟨s, hr, hone⟩ := reached_one
  exact ⟨s, hone, shrink_least hr [true]⟩

/-- A loop over the table visits every key once, whichever keys it erases on its way, and
leaves the others. -/
theorem sweep_visits_once (hr : s.Reached hashFn) (keep : κ → ν → Bool) :
    ∃ visited u m, s.table.sweep hashFn keep = .ok (visited, u) ∧ s.table.Maps m ∧
      Lists m visited ∧ visited.length = s.table.size ∧ u.Maps (keepIn m keep) ∧
      u.size = (visited.filter fun e => keep e.1 e.2).length := by
  obtain ⟨m, -, hw, hm⟩ := hr.explained
  obtain ⟨visited, u, hrun, hperm, hu, -, hcontents⟩ := sweep_ok hw keep
  have hl := (lists_entries hw.toStored hm).perm hperm
  have hmaps : u.Maps (keepIn m keep) := fun k v => by
    rw [hcontents, ← hm, keepIn, Option.filter_eq_some_iff]
  refine ⟨visited, u, m, hrun, hm, hl, hperm.length_eq.trans (length_entries hw.toStored), hmaps, ?_⟩
  have hsame : u.entries.Perm (visited.filter fun e => keep e.1 e.2) := by
    refine (List.perm_ext_iff_of_nodup (nodup_entries hu.toStored).of_map
      (hl.nodup.of_map.filter _)).mpr ?_
    rintro ⟨k, v⟩
    rw [mem_entries hu.toStored, hcontents, List.mem_filter, hl.mem, hm]
  rw [size, ← length_entries hu.toStored]
  exact hsame.length_eq

theorem sweep_visits_once_one :
    ∃ s : VtHistory Nat Nat, s.table.size = 1 ∧ ∃ visited u m,
      s.table.sweep (fun k => vtHashInteger (.ofNat 64 k)) (fun _ _ => false) = .ok (visited, u) ∧
      s.table.Maps m ∧ Lists m visited ∧ visited.length = s.table.size ∧
      u.Maps (keepIn m fun _ _ => false) ∧ u.size = (visited.filter fun _ => false).length := by
  obtain ⟨s, hr, hone⟩ := reached_one
  exact ⟨s, hone, sweep_visits_once hr fun _ _ => false⟩

end Wg14Signals.VtHistory
