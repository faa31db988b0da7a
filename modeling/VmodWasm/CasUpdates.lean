import VmodWasm.SharedData

/-!
Clients that share the store read a counter with a value and hand it back with
an update. As long as the counter of a key cannot wrap, it is the number of
successful sets of the key; so an update that is accepted with the counter of
an earlier get follows that get with no other update in between.
-/
namespace VmodWasm.CasUpdates

open ByteStrings SharedData Lib.HashChains Lib.Mealy

/-- A call by one of any number of clients; calls are atomic. -/
def clientCall (sd : SharedStore) (l : ℕ × SharedCall) : Answer × SharedStore := sharedCall sd l.2

/-- The call is a set of `key`. -/
def SetsKey (key : Bytes) : SharedCall → Prop
  | .set k _ _ _ => k = key
  | .get _ _ => False

instance (key : Bytes) (call : SharedCall) : Decidable (SetsKey key call) := by
  cases call <;> unfold SetsKey <;> infer_instance

/-- The call sets `key`, with success. -/
def Succeeds (key : Bytes) (sd : SharedStore) (l : ℕ × SharedCall) : Prop :=
  SetsKey key l.2 ∧ (clientCall sd l).1 = .set .ok

instance (key : Bytes) (sd : SharedStore) (l : ℕ × SharedCall) :
    Decidable (Succeeds key sd l) := by
  unfold Succeeds
  infer_instance

/-- The number of successful sets of a key in a run. -/
def successfulSets (key : Bytes) : SharedStore → List (ℕ × SharedCall) → ℕ
  | _, [] => 0
  | sd, l :: ls =>
    (if Succeeds key sd l then 1 else 0) + successfulSets key (clientCall sd l).2 ls

theorem successfulSets_append (key : Bytes) (sd : SharedStore) (ls ls' : List (ℕ × SharedCall)) :
    successfulSets key sd (ls ++ ls') =
      successfulSets key sd ls + successfulSets key (after clientCall sd ls) ls' := by
  induction ls generalizing sd with
  | nil => simp [successfulSets, after]
  | cons l ls ih =>
    rw [List.cons_append, successfulSets, successfulSets, ih, Nat.add_assoc]
    rfl

theorem successfulSets_le (key : Bytes) (sd : SharedStore) (ls : List (ℕ × SharedCall)) :
    successfulSets key sd ls ≤ ls.length := by
  induction ls generalizing sd with
  | nil => exact Nat.le_refl 0
  | cons l ls ih =>
    have hrest := ih (clientCall sd l).2
    rw [successfulSets, List.length_cons]
    split <;> omega

/-- The counter of a key, if it has been set. -/
def version (sd : SharedStore) (key : Bytes) : Option UInt32 :=
  (find bucketOf entryName sd key).map SharedEntry.cas

/-- The counter of a key after its `n`-th successful set. -/
def versionOf (n : ℕ) : Option UInt32 := if n = 0 then none else some (UInt32.ofNat n)

theorem versionOf_succ (n : ℕ) : versionOf (n + 1) = some ((versionOf n).elim 1 (· + 1)) := by
  by_cases hn : n = 0
  · subst hn
    rfl
  · rw [versionOf, if_neg (Nat.succ_ne_zero n), versionOf, if_neg hn, Option.elim_some,
      UInt32.ofNat_add]
    rfl

/-- A counter that has not wrapped is not 0. -/
theorem versionOf_ne_zero (n : ℕ) (cas : UInt32) (hn : n < 2 ^ 32) (h : versionOf n = some cas) :
    cas ≠ 0 := by
  rintro rfl
  rw [versionOf] at h
  split at h
  · contradiction
  next hzero =>
    have htoNat := congrArg UInt32.toNat (Option.some.inj h)
    rw [UInt32.toNat_ofNat_of_lt' hn] at htoNat
    exact hzero htoNat

theorem version_get (sd : SharedStore) (key value : Bytes) (cas : UInt32) (alloc : Bool)
    (h : vwasmSharedDataGet sd key alloc = some (value, cas)) : version sd key = some cas := by
  rw [vwasmSharedDataGet_eq] at h
  by_cases hkey : key = []
  · rw [if_pos hkey] at h
    contradiction
  · rw [if_neg hkey] at h
    rcases hfind : find bucketOf entryName sd key with _ | e
    · simp [hfind] at h
    · simp only [hfind] at h
      split at h
      · contradiction
      · obtain ⟨_, rfl⟩ := Prod.mk.inj (Option.some.inj h)
        simp [version, hfind]

/-- A successful set of a key without NUL bytes moves the counter of the key
and of no other; nothing else moves a counter. -/
theorem version_set (sd : SharedStore) (k key value : Bytes) (cas : UInt32) (env : SetEnv)
    (hnul : 0 ∉ k) :
    version (vwasmSharedDataSet sd k value cas env).2 key =
      if k = key ∧ (vwasmSharedDataSet sd k value cas env).1 = .ok then
        some ((version sd key).elim 1 (· + 1))
      else version sd key := by
  have hname : entryName ⟨k ++ [0], value, 1⟩ = k := by
    rw [entryName_terminated, cstr_of_notMem k hnul]
  rw [vwasmSharedDataSet_eq]
  by_cases hfits : Fits k value env
  · rw [if_neg (not_not.mpr hfits)]
    rcases hfind : find bucketOf entryName sd k with _ | e
    · dsimp only
      split
      · rw [version, find_push bucketOf entryName sd k _ hname]
        by_cases hk : k = key
        · subst hk
          simp [version, hfind]
        · simp [version, hk, Function.update_of_ne (Ne.symm hk)]
      · simp
    · dsimp only
      split
      · simp
      · rw [version, find_modify bucketOf entryName sd k (updateEntry value) fun _ => rfl]
        by_cases hk : k = key
        · subst hk
          simp [version, hfind, updateEntry]
        · simp [version, hk, Function.update_of_ne (Ne.symm hk)]
  · rw [if_pos hfits]
    simp

theorem version_call (sd : SharedStore) (l : ℕ × SharedCall) (key : Bytes) (hnul : 0 ∉ l.2.key) :
    version (clientCall sd l).2 key =
      if Succeeds key sd l then some ((version sd key).elim 1 (· + 1)) else version sd key := by
  obtain ⟨client, call⟩ := l
  cases call with
  | set k value cas env =>
    refine (version_set sd k key value cas env hnul).trans ?_
    simp [Succeeds, SetsKey, clientCall, sharedCall]
  | get k alloc => simp [Succeeds, SetsKey, clientCall, sharedCall]

/-- The counter of a key counts its successful sets. -/
theorem version_after (sd : SharedStore) (ls : List (ℕ × SharedCall)) (key : Bytes) (n : ℕ)
    (hnul : ∀ l ∈ ls, 0 ∉ l.2.key) (h : version sd key = versionOf n) :
    version (after clientCall sd ls) key = versionOf (n + successfulSets key sd ls) := by
  induction ls generalizing sd n with
  | nil => exact h
  | cons l ls ih =>
    have hrest : ∀ l' ∈ ls, 0 ∉ l'.2.key := fun l' hl' => hnul l' (List.mem_cons_of_mem _ hl')
    have hstep := version_call sd l key (hnul l List.mem_cons_self)
    change version (after clientCall (clientCall sd l).2 ls) key = _
    rw [successfulSets]
    by_cases hok : Succeeds key sd l
    · rw [if_pos hok, h, ← versionOf_succ] at hstep
      rw [ih _ (n + 1) hrest hstep, if_pos hok, Nat.add_assoc]
    · rw [if_neg hok, h] at hstep
      rw [ih _ n hrest hstep, if_neg hok, Nat.zero_add]

/-- A conditional set of a key that is there succeeds only with its counter. -/
theorem version_of_ok (sd : SharedStore) (key value : Bytes) (cas current : UInt32) (env : SetEnv)
    (hcas : cas ≠ 0) (hversion : version sd key = some current)
    (h : (vwasmSharedDataSet sd key value cas env).1 = .ok) : current = cas := by
  rw [vwasmSharedDataSet_eq] at h
  obtain ⟨e, hfind, rfl⟩ := Option.map_eq_some_iff.mp hversion
  split at h
  · contradiction
  · simp only [hfind] at h
    split at h
    · contradiction
    next hmatch =>
      by_contra hne
      exact hmatch ⟨hcas, hne⟩

/-- A set that fails with a mismatch leaves the store alone. -/
theorem set_casMismatch (sd : SharedStore) (key value : Bytes) (cas : UInt32) (env : SetEnv)
    (h : (vwasmSharedDataSet sd key value cas env).1 = .casMismatch) :
    (vwasmSharedDataSet sd key value cas env).2 = sd := by
  rw [vwasmSharedDataSet_eq] at h ⊢
  split at h
  next hfits => rw [if_pos hfits]
  next hfits =>
    rw [if_neg hfits]
    rcases hfind : find bucketOf entryName sd key with _ | e
    · simp only [hfind] at h
      split at h <;> contradiction
    · simp only [hfind] at h ⊢
      split at h
      next hmatch => rw [if_pos hmatch]
      next => contradiction

/-- Between a get and a set by the counter it returned no set succeeds. -/
theorem successfulSets_eq_zero (sd : SharedStore) (mid : List (ℕ × SharedCall)) (key old value : Bytes)
    (n : ℕ) (alloc : Bool) (cas : UInt32) (env : SetEnv) (hnul : ∀ l ∈ mid, 0 ∉ l.2.key)
    (hversion : version sd key = versionOf n)
    (hfew : n + successfulSets key sd mid < 2 ^ 32)
    (hget : vwasmSharedDataGet sd key alloc = some (old, cas))
    (hset : (vwasmSharedDataSet (after clientCall sd mid) key value cas env).1 = .ok) :
    successfulSets key sd mid = 0 := by
  have hcas := version_get sd key old cas alloc hget
  have hlater := version_after sd mid key n hnul hversion
  rw [hversion] at hcas
  have hn : n ≠ 0 := by
    rintro rfl
    contradiction
  have hcas0 := versionOf_ne_zero n cas (by omega) hcas
  rw [versionOf, if_neg hn, Option.some.injEq] at hcas
  rw [versionOf, if_neg (by omega)] at hlater
  have hsame := version_of_ok _ key value cas _ env hcas0 hlater hset
  have htoNat := congrArg UInt32.toNat (hsame.trans hcas.symm)
  rw [UInt32.toNat_ofNat_of_lt' (by simp [UInt32.size]; omega),
    UInt32.toNat_ofNat_of_lt' (by simp [UInt32.size]; omega)] at htoNat
  omega

/-- No update is lost: a set that succeeds with the counter of the client's get
follows it with no successful set of the key in between, by any client; and a
set that fails with a mismatch changes nothing. -/
theorem clientRun_noLostUpdate (run : List (ℕ × SharedCall)) (hnul : ∀ l ∈ run, 0 ∉ l.2.key)
    (hfew : ∀ key, successfulSets key vwasmSharedDataNew run < 2 ^ 32 - 1) :
    (∀ pre mid client key alloc old cas value env,
      pre ++ (client, .get key alloc) :: mid ++ [(client, .set key value cas env)] <+: run →
      answer clientCall vwasmSharedDataNew pre (client, .get key alloc) = .get (some (old, cas)) →
      answer clientCall vwasmSharedDataNew (pre ++ (client, .get key alloc) :: mid)
        (client, .set key value cas env) = .set .ok →
      ∀ mid₁ other mid₂, mid = mid₁ ++ other :: mid₂ → SetsKey key other.2 →
        answer clientCall vwasmSharedDataNew (pre ++ (client, .get key alloc) :: mid₁) other ≠
          .set .ok) ∧
    ∀ pre client key value cas env, pre ++ [(client, .set key value cas env)] <+: run →
      answer clientCall vwasmSharedDataNew pre (client, .set key value cas env) =
        .set .casMismatch →
      after clientCall vwasmSharedDataNew (pre ++ [(client, .set key value cas env)]) =
        after clientCall vwasmSharedDataNew pre := by
  constructor
  · intro pre mid client key alloc old cas value env hpre hget hset mid₁ other mid₂ hmid hsets hok
    obtain ⟨rest, rfl⟩ := hpre
    set sd := after clientCall vwasmSharedDataNew pre with hsd
    -- the get leaves the store alone
    have hafter (ls : List (ℕ × SharedCall)) :
        after clientCall vwasmSharedDataNew (pre ++ (client, .get key alloc) :: ls) =
          after clientCall sd ls := by
      rw [after_append, ← hsd]
      rfl
    have hversion : version sd key =
        versionOf (successfulSets key vwasmSharedDataNew pre) := by
      have h := version_after vwasmSharedDataNew pre key 0 (fun l hl => hnul l (by simp [hl])) rfl
      rwa [Nat.zero_add] at h
    have hbound : successfulSets key vwasmSharedDataNew pre + successfulSets key sd mid < 2 ^ 32 := by
      have hrun := hfew key
      rw [List.append_assoc, List.append_assoc, successfulSets_append, ← hsd, List.cons_append,
        successfulSets] at hrun
      change _ + (_ + successfulSets key sd _) < _ at hrun
      rw [successfulSets_append] at hrun
      omega
    rw [answer, hafter] at hset
    injection hget with hget
    injection hset with hset
    have hzero := successfulSets_eq_zero sd mid key old value _ alloc cas env
      (fun l hl => hnul l (by simp [hl])) hversion hbound hget hset
    rw [hmid, successfulSets_append, successfulSets, if_pos] at hzero
    · omega
    · rw [answer, hafter] at hok
      exact ⟨hsets, hok⟩
  · intro pre client key value cas env _ hmismatch
    injection hmismatch with hmismatch
    rw [after_snoc]
    exact set_casMismatch _ key value cas env hmismatch

/-- Client 1 tries to update by a counter that client 0 has moved since. -/
def staleRun : List (ℕ × SharedCall) :=
  [(0, .set (ascii "k") (ascii "1") 0 {}), (1, .get (ascii "k") true),
    (0, .set (ascii "k") (ascii "2") 0 {}), (0, .get (ascii "k") true),
    (1, .set (ascii "k") (ascii "8") 1 {}), (0, .set (ascii "k") (ascii "3") 2 {})]

theorem staleRun_noLostUpdate :
    answer clientCall vwasmSharedDataNew (staleRun.take 5)
      (0, .set (ascii "k") (ascii "3") 2 {}) = .set .ok ∧
    answer clientCall vwasmSharedDataNew (staleRun.take 4)
      (1, .set (ascii "k") (ascii "8") 1 {}) ≠ .set .ok ∧
    after clientCall vwasmSharedDataNew (staleRun.take 5) =
      after clientCall vwasmSharedDataNew (staleRun.take 4) := by
  have hok : answer clientCall vwasmSharedDataNew (staleRun.take 5)
      (0, .set (ascii "k") (ascii "3") 2 {}) = .set .ok := by decide +kernel
  have hfew (key : Bytes) : successfulSets key vwasmSharedDataNew staleRun < 2 ^ 32 - 1 := by
    have hle := successfulSets_le key vwasmSharedDataNew staleRun
    have hlen : staleRun.length = 6 := rfl
    omega
  obtain ⟨hlost, hmismatch⟩ := clientRun_noLostUpdate staleRun (by decide +kernel) hfew
  refine ⟨hok, ?_, ?_⟩
  · exact hlost (staleRun.take 3) [(1, .set (ascii "k") (ascii "8") 1 {})] 0 (ascii "k") true
      (ascii "2") 2 (ascii "3") {} List.prefix_rfl (by decide +kernel) hok [] _ [] rfl rfl
  · exact hmismatch (staleRun.take 4) 1 (ascii "k") (ascii "8") 1 {} (by decide) (by decide +kernel)

end VmodWasm.CasUpdates
