import Mathlib.Data.List.FinRange
import Shmily.Foundation.Run
import Shmily.Net.Packet

/-! # What the cache has learned

`append` looks a pair up by the first slot with its MAC address, puts a new pair into the
first free slot or else the least used one, and `get_mac_addr` looks up the first slot with
an IP address. The three searches need not meet: a pair can be stored behind an older slot
with its IP address, and a second time, behind a slot with its MAC address.
-/

namespace Shmily.Net

open Foundation Lib

/-- The first index that satisfies a predicate. -/
theorem find?_finRange_eq_some_iff {n : Nat} {p : Fin n → Bool} {i : Fin n} :
    (List.finRange n).find? p = some i ↔ p i = true ∧ ∀ j < i, p j = false := by
  rw [List.find?_eq_some_iff_getElem]
  refine and_congr_right fun _ => ⟨?_, fun hbefore => ?_⟩
  · rintro ⟨k, hk, rfl, hbefore⟩ j hj
    have hlt : j.val < k := by
      rw [List.getElem_finRange] at hj
      exact hj
    have hnot := hbefore j.val hlt
    rw [List.getElem_finRange] at hnot
    simpa using hnot
  · refine ⟨i.val, by rw [List.length_finRange]; exact i.isLt, by simp, fun j hj => ?_⟩
    have hnot := hbefore ⟨j, hj.trans i.isLt⟩ hj
    rw [List.getElem_finRange]
    simpa using hnot

namespace ArpCacheTable

/-- The table as the constructor leaves it. -/
def cleared : ArpCacheTable where
  items := fun _ => ⟨0, 0, 0⟩

/-- The slot for a new pair. -/
def replaceable (table : ArpCacheTable) : Fin 5 := table.getFreeSlot.getD table.removeLessUseItem

/-- The slot that holds a pair after it was appended: the first one with its MAC address,
if that one has its IP address too, and else a replaceable one. The lookup counts as a use. -/
def place (table : ArpCacheTable) (macAddr : MacAddr) (ipAddr : IpAddr) : Fin 5 :=
  match table.locateMacAddr macAddr with
  | some i => if (table.items i).ipAddr = ipAddr then i else (table.touch i).replaceable
  | none => table.replaceable

/-- The slot holds the pair. -/
def Maps (table : ArpCacheTable) (i : Fin 5) (macAddr : MacAddr) (ipAddr : IpAddr) : Prop :=
  (table.items i).macAddr = macAddr ∧ (table.items i).ipAddr = ipAddr

/-- The slot is the first one with the IP address. -/
def FirstWith (table : ArpCacheTable) (i : Fin 5) (ipAddr : IpAddr) : Prop :=
  (table.items i).ipAddr = ipAddr ∧ ∀ j < i, (table.items j).ipAddr ≠ ipAddr

/-- No pair is in two slots. -/
def NoDuplicates (table : ArpCacheTable) : Prop :=
  ∀ i j macAddr ipAddr, macAddr ≠ 0 → table.Maps i macAddr ipAddr → table.Maps j macAddr ipAddr →
    i = j

variable {table : ArpCacheTable} {macAddr : MacAddr} {ipAddr : IpAddr} {i j : Fin 5}

theorem locateIpAddr_eq_some_iff :
    table.locateIpAddr ipAddr = some i ↔ table.FirstWith i ipAddr := by
  rw [locateIpAddr, find?_finRange_eq_some_iff, FirstWith]
  simp only [decide_eq_true_eq, decide_eq_false_iff_not, ne_eq]

theorem locateMacAddr_spec (hlocate : table.locateMacAddr macAddr = some i) :
    (table.items i).macAddr = macAddr := by
  rw [locateMacAddr, find?_finRange_eq_some_iff] at hlocate
  exact of_decide_eq_true hlocate.1

/-- The pairs of the table are the same. -/
def SamePairs (table used : ArpCacheTable) : Prop :=
  ∀ i, (used.items i).macAddr = (table.items i).macAddr ∧
    (used.items i).ipAddr = (table.items i).ipAddr

/-- Uses are counted, and the pairs stay. -/
theorem touch_samePairs (table : ArpCacheTable) (i : Fin 5) : table.SamePairs (table.touch i) := by
  intro j
  change (Function.update table.items i _ j).macAddr = _ ∧
    (Function.update table.items i _ j).ipAddr = _
  rcases eq_or_ne j i with rfl | hne
  · rw [Function.update_self]
    exact ⟨rfl, rfl⟩
  · rw [Function.update_of_ne hne]
    exact ⟨rfl, rfl⟩

theorem setItem_maps (slot : Fin 5) :
    ((table.setItem slot macAddr ipAddr).items i).macAddr =
        (if i = slot then macAddr else (table.items i).macAddr) ∧
      ((table.setItem slot macAddr ipAddr).items i).ipAddr =
        if i = slot then ipAddr else (table.items i).ipAddr := by
  change (Function.update table.items slot _ i).macAddr = _ ∧
    (Function.update table.items slot _ i).ipAddr = _
  split
  next heq =>
    rw [heq, Function.update_self]
    exact ⟨rfl, rfl⟩
  next hne =>
    rw [Function.update_of_ne hne]
    exact ⟨rfl, rfl⟩

/-- The pair was found, or it is stored. -/
theorem append_cases (table : ArpCacheTable) (macAddr : MacAddr) (ipAddr : IpAddr) :
    ∃ used, table.SamePairs used ∧
      (table.append macAddr ipAddr = used ∧ table.Maps (table.place macAddr ipAddr) macAddr ipAddr ∨
        table.append macAddr ipAddr =
          used.setItem (table.place macAddr ipAddr) macAddr ipAddr) := by
  rw [append, isExists, getIpAddr, place]
  cases hlocate : table.locateMacAddr macAddr with
  | none => exact ⟨table, fun _ => ⟨rfl, rfl⟩, .inr (if_neg (by simp))⟩
  | some k =>
      refine ⟨table.touch k, table.touch_samePairs k, ?_⟩
      dsimp only
      split
      next hsame =>
        have hfound : (table.items k).ipAddr = ipAddr := by simpa using hsame
        rw [if_pos hfound]
        exact .inl ⟨rfl, locateMacAddr_spec hlocate, hfound⟩
      next hdiffers =>
        rw [if_neg (by simpa using hdiffers)]
        exact .inr rfl

/-- The pair is in its place, and the other slots keep theirs. -/
theorem append_item (table : ArpCacheTable) (macAddr : MacAddr) (ipAddr : IpAddr) (i : Fin 5) :
    ((table.append macAddr ipAddr).items i).macAddr =
        (if i = table.place macAddr ipAddr then macAddr else (table.items i).macAddr) ∧
      ((table.append macAddr ipAddr).items i).ipAddr =
        if i = table.place macAddr ipAddr then ipAddr else (table.items i).ipAddr := by
  obtain ⟨used, hsame, ⟨happend, hmaps⟩ | happend⟩ := table.append_cases macAddr ipAddr
  · rw [happend, (hsame i).1, (hsame i).2]
    split
    next heq => rw [heq, hmaps.1, hmaps.2]; exact ⟨rfl, rfl⟩
    next => exact ⟨rfl, rfl⟩
  · rw [happend, (setItem_maps _).1, (setItem_maps _).2, (hsame i).1, (hsame i).2]
    exact ⟨rfl, rfl⟩

theorem append_maps_place (table : ArpCacheTable) (macAddr : MacAddr) (ipAddr : IpAddr) :
    (table.append macAddr ipAddr).Maps (table.place macAddr ipAddr) macAddr ipAddr := by
  obtain ⟨hmac, hip⟩ := table.append_item macAddr ipAddr (table.place macAddr ipAddr)
  rw [if_pos rfl] at hmac hip
  exact ⟨hmac, hip⟩

theorem append_maps_of_ne (hne : i ≠ table.place macAddr ipAddr) {mac : MacAddr} {ip : IpAddr} :
    (table.append macAddr ipAddr).Maps i mac ip ↔ table.Maps i mac ip := by
  obtain ⟨hmac, hip⟩ := table.append_item macAddr ipAddr i
  rw [if_neg hne] at hmac hip
  rw [Maps, Maps, hmac, hip]

/-- Among the slots before the place the first one with the address is the same. -/
theorem append_firstWith_of_lt (hlt : i < table.place macAddr ipAddr) :
    (table.append macAddr ipAddr).FirstWith i ipAddr ↔ table.FirstWith i ipAddr := by
  have hip : ∀ j ≤ i, ((table.append macAddr ipAddr).items j).ipAddr = (table.items j).ipAddr := by
    intro j hle
    rw [(table.append_item macAddr ipAddr j).2, if_neg (ne_of_lt (lt_of_le_of_lt hle hlt))]
  rw [FirstWith, FirstWith, hip i le_rfl]
  refine and_congr_right fun _ => forall₂_congr fun j hj => ?_
  rw [hip j hj.le]

/-- The address is found at its place, or in an older slot before. -/
theorem append_first (table : ArpCacheTable) (macAddr : MacAddr) (ipAddr : IpAddr) :
    ∃ i ≤ table.place macAddr ipAddr, (table.append macAddr ipAddr).FirstWith i ipAddr := by
  have hplace := (table.append_maps_place macAddr ipAddr).2
  have hsome : ((table.append macAddr ipAddr).locateIpAddr ipAddr).isSome := by
    rw [locateIpAddr, List.find?_isSome]
    exact ⟨_, List.mem_finRange _, decide_eq_true hplace⟩
  obtain ⟨i, hi⟩ := Option.isSome_iff_exists.mp hsome
  have hfirst := locateIpAddr_eq_some_iff.mp hi
  exact ⟨i, le_of_not_gt fun hlt => hfirst.2 _ hlt hplace, hfirst⟩

/-- After a pair was appended its address is resolved to it if and only if no older slot
with the address, and another MAC address, comes first. -/
theorem getMacAddr_append_iff (table : ArpCacheTable) (macAddr : MacAddr) (ipAddr : IpAddr) :
    ((table.append macAddr ipAddr).getMacAddr ipAddr).1 = some macAddr ↔
      ∀ i < table.place macAddr ipAddr, table.FirstWith i ipAddr →
        (table.items i).macAddr = macAddr := by
  obtain ⟨i, hle, hfirst⟩ := table.append_first macAddr ipAddr
  have hresult : ((table.append macAddr ipAddr).getMacAddr ipAddr).1 =
      some ((table.append macAddr ipAddr).items i).macAddr := by
    rw [getMacAddr, locateIpAddr_eq_some_iff.mpr hfirst]
  rw [hresult, Option.some.injEq, (table.append_item macAddr ipAddr i).1]
  rcases lt_or_eq_of_le hle with hlt | rfl
  · have hold := (append_firstWith_of_lt hlt).mp hfirst
    rw [if_neg (ne_of_lt hlt)]
    constructor
    · intro hmac j _ hj
      rcases lt_trichotomy i j with hij | rfl | hji
      · exact absurd hold.1 (hj.2 i hij)
      · exact hmac
      · exact absurd hj.1 (hold.2 j hji)
    · exact fun hall => hall i hlt hold
  · rw [if_pos rfl]
    refine iff_of_true rfl fun j hj hbefore => ?_
    exact absurd ((append_firstWith_of_lt hj).mpr hbefore).1 (hfirst.2 j hj)

/-- A pair is appended once just if no slot but its place held it. -/
theorem append_noDuplicates_iff (hdistinct : table.NoDuplicates) (hmac : macAddr ≠ 0) :
    (table.append macAddr ipAddr).NoDuplicates ↔
      ∀ i ≠ table.place macAddr ipAddr, ¬ table.Maps i macAddr ipAddr := by
  have hplace := table.append_maps_place macAddr ipAddr
  constructor
  · intro hnew i hne hmaps
    exact hne (hnew i _ macAddr ipAddr hmac ((append_maps_of_ne hne).mpr hmaps) hplace)
  · intro hnone i j mac ip hnonzero hi hj
    rcases eq_or_ne i (table.place macAddr ipAddr) with rfl | hinew
    · by_contra hne
      have hjnew : j ≠ table.place macAddr ipAddr := fun heq => hne heq.symm
      obtain ⟨rfl, rfl⟩ : mac = macAddr ∧ ip = ipAddr :=
        ⟨hi.1.symm.trans hplace.1, hi.2.symm.trans hplace.2⟩
      exact hnone j hjnew ((append_maps_of_ne hjnew).mp hj)
    · rcases eq_or_ne j (table.place macAddr ipAddr) with rfl | hjnew
      · obtain ⟨rfl, rfl⟩ : mac = macAddr ∧ ip = ipAddr :=
          ⟨hj.1.symm.trans hplace.1, hj.2.symm.trans hplace.2⟩
        exact absurd ((append_maps_of_ne hinew).mp hi) (hnone i hinew)
      · exact hdistinct i j mac ip hnonzero ((append_maps_of_ne hinew).mp hi)
          ((append_maps_of_ne hjnew).mp hj)

theorem cleared_noDuplicates : cleared.NoDuplicates :=
  fun _ _ _ _ hmac hmaps _ => absurd hmaps.1.symm hmac

/-- A pair without zero addresses. -/
structure Mapping where
  macAddr : MacAddr
  ipAddr : IpAddr
  macAddr_ne : macAddr ≠ 0
  ipAddr_ne : ipAddr ≠ 0

def learn (table : ArpCacheTable) (mapping : Mapping) : Option ArpCacheTable :=
  some (table.append mapping.macAddr mapping.ipAddr)

/-- No slot but the place of the pair holds it. -/
def Fresh (table : ArpCacheTable) (mapping : Mapping) : Prop :=
  ∀ i ≠ table.place mapping.macAddr mapping.ipAddr,
    ¬ table.Maps i mapping.macAddr mapping.ipAddr

/-- The cache answers with what it was told last just if no older slot with the address
comes first, and holds no pair twice just if each pair was new to the other slots. -/
theorem learns_iff (table after : ArpCacheTable) (macAddr : MacAddr) (ipAddr : IpAddr)
    (mappings : List Mapping) :
    (((table.append macAddr ipAddr).getMacAddr ipAddr).1 = some macAddr ↔
      ∀ i < table.place macAddr ipAddr, table.FirstWith i ipAddr →
        (table.items i).macAddr = macAddr) ∧
    (Run learn (fun before mapping =>
        (before.append mapping.macAddr mapping.ipAddr).NoDuplicates) cleared mappings after ↔
      Run learn Fresh cleared mappings after) := by
  refine ⟨getMacAddr_append_iff table macAddr ipAddr, ?_⟩
  refine Run.congr_of_invariant NoDuplicates cleared_noDuplicates ?_ ?_
  · intro before mapping next hdistinct _
    exact append_noDuplicates_iff hdistinct mapping.macAddr_ne
  · intro before mapping next hdistinct hfresh hlearn
    obtain rfl := Option.some.inj hlearn
    exact (append_noDuplicates_iff hdistinct mapping.macAddr_ne).mpr hfresh

/-- A host that takes the address of another, and one that changes its address. -/
theorem older_slots_win :
    (¬ ∀ (table : ArpCacheTable) (macAddr : MacAddr) (ipAddr : IpAddr), macAddr ≠ 0 → ipAddr ≠ 0 →
      ((table.append macAddr ipAddr).getMacAddr ipAddr).1 = some macAddr) ∧
    ¬ ∀ (mappings : List Mapping) (table : ArpCacheTable),
      Run learn (fun _ _ => True) cleared mappings table → table.NoDuplicates := by
  constructor
  · intro hall
    have hanswer := hall (cleared.append (fun _ => 1) (fun _ => 1)) (fun _ => 2) (fun _ => 1)
      (by decide) (by decide)
    exact absurd hanswer (by decide)
  · intro hall
    let first : Mapping := ⟨fun _ => 1, fun _ => 1, by decide, by decide⟩
    let second : Mapping := ⟨fun _ => 1, fun _ => 2, by decide, by decide⟩
    have hdistinct := hall [first, second, second] _
      (((Run.nil.snoc trivial rfl).snoc trivial rfl).snoc trivial rfl)
    have htwice := hdistinct 1 2 (fun _ => 1) (fun _ => 2) (by decide)
      ⟨by decide, by decide⟩ ⟨by decide, by decide⟩
    exact absurd htwice (by decide)

end ArpCacheTable

end Shmily.Net
