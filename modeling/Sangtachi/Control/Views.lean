import Mathlib.Data.List.Perm.Subperm
import Sangtachi.Control.Rooms

/-! # What a query shows

The view of a consistent room, and what a request may still rely on after other requests have
run: the host of the room, and the address, the nonce and the name key of each peer it saw. -/
namespace Sangtachi.Control

open UniqueIndex

theorem mem_partition {κ ν : Type} [DecidableEq κ] {roomId : RoomId} {sk : κ → SortKey}
    {m : AList fun _ : RoomId × κ => ν} {k : κ} {v : ν} :
    (k, v) ∈ partition roomId sk m.entries ↔ m.lookup (roomId, k) = some v := by
  unfold partition
  rw [List.mem_insertionSort, List.mem_filterMap, ← Option.mem_def, AList.mem_lookup_iff]
  constructor
  · rintro ⟨⟨⟨r, k'⟩, v'⟩, hmem, hrow⟩
    by_cases hr : r = roomId
    · subst hr
      simp only [if_true, Option.some.injEq, Prod.mk.injEq] at hrow
      obtain ⟨rfl, rfl⟩ := hrow
      exact hmem
    · simp [hr] at hrow
  · intro hmem
    exact ⟨_, hmem, by simp⟩

theorem partition_nodup {κ ν : Type} [DecidableEq κ] (roomId : RoomId) (sk : κ → SortKey)
    (m : AList fun _ : RoomId × κ => ν) : ((partition roomId sk m.entries).map Prod.fst).Nodup := by
  unfold partition
  refine ((List.perm_insertionSort _ _).map Prod.fst).nodup_iff.mpr ?_
  have hkeys :
    ((m.entries.filterMap fun row => if row.1.1 = roomId then some (row.1.2, row.2) else none).map
      Prod.fst) = m.entries.keys.filterMap fun k => if k.1 = roomId then some k.2 else none := by
    rw [List.map_filterMap, List.keys, List.filterMap_map]
    congr 1
    funext row
    by_cases hr : row.1.1 = roomId <;> simp [hr]
  rw [hkeys]
  refine m.nodupKeys.filterMap ?_
  rintro ⟨r, k⟩ ⟨r', k'⟩ b hb hb'
  by_cases hr : r = roomId <;> by_cases hr' : r' = roomId <;> simp_all

section

variable {t : Table} {roomId : RoomId} {id : PeerId} {p : PeerItem}

theorem view_room (t : Table) (roomId : RoomId) :
    (queryRoom t roomId).room = t.rooms.lookup roomId := rfl

theorem mem_view_peers : p ∈ (queryRoom t roomId).peers ↔ ∃ id, t.peerAt (roomId, id) = some p := by
  simp only [queryRoom, List.mem_map, Prod.exists, exists_eq_right]
  constructor
  · rintro ⟨id, h⟩
    exact ⟨id, mem_partition.mp h⟩
  · rintro ⟨id, h⟩
    exact ⟨id, mem_partition.mpr h⟩

theorem mem_view_names {key : Text} :
    (key, id) ∈ (queryRoom t roomId).names ↔ t.nameOwner (roomId, key) = some (roomId, id) := by
  simp only [queryRoom, List.mem_map, Prod.exists, Prod.mk.injEq, Table.nameOwner,
    Option.map_eq_some_iff,
    true_and]
  constructor
  · rintro ⟨key', claim, h, rfl, rfl⟩
    exact ⟨claim, mem_partition.mp h, rfl⟩
  · rintro ⟨claim, h, rfl⟩
    exact ⟨key, claim, mem_partition.mpr h, rfl, rfl⟩

theorem view_pair (t : Table) (roomId : RoomId) (key : PairKey) :
    (queryRoom t roomId).pair key = t.pairAt (roomId, key) := by
  unfold RoomView.pair
  cases hfind : (queryRoom t roomId).pairs.find? fun row => row.1 = key with
  | none =>
    cases hp : t.pairAt (roomId, key) with
    | none => rfl
    | some pair =>
      have hmem : (key, pair) ∈ (queryRoom t roomId).pairs := mem_partition.mpr hp
      have hne := List.find?_eq_none.mp hfind _ hmem
      simp at hne
  | some row =>
    obtain ⟨key', pair⟩ := row
    obtain rfl : key' = key := by simpa using List.find?_some hfind
    exact (mem_partition.mp (List.mem_of_find?_eq_some hfind)).symm

theorem mem_view_sks : .peer id ∈ (queryRoom t roomId).sks ↔ (t.peerAt (roomId, id)).isSome := by
  simp only [queryRoom, List.mem_append, List.mem_map, Prod.exists, reduceCtorEq,
    and_false, exists_false,
    false_or, or_false, SortKey.peer.injEq, Option.isSome_iff_exists]
  constructor
  · rintro ⟨id', p, h, rfl⟩
    exact ⟨p, mem_partition.mp h⟩
  · rintro ⟨p, h⟩
    exact ⟨id, p, mem_partition.mpr h, rfl⟩

end

section

variable {s : Shared} {roomId : RoomId} {id : PeerId} {p : PeerItem}

theorem view_peers_nodup (hc : Consistent s) (roomId : RoomId) :
    ((queryRoom s.table roomId).peers.map PeerItem.peerId).Nodup := by
  have heq : (queryRoom s.table roomId).peers.map PeerItem.peerId =
      (partition roomId .peer s.table.peers.entries).map Prod.fst := by
    simp only [queryRoom, List.map_map]
    refine List.map_congr_left ?_
    rintro ⟨id, p⟩ hmem
    exact hc.keyed _ p (mem_partition.mp hmem)
  rw [heq]
  exact partition_nodup _ _ _

theorem view_peer_iff (hc : Consistent s) :
    (queryRoom s.table roomId).peer id = some p ↔ s.table.peerAt (roomId, id) = some p := by
  unfold RoomView.peer
  constructor
  · intro h
    obtain ⟨id', hid'⟩ := mem_view_peers.mp (List.mem_of_find?_eq_some h)
    have hid : p.peerId = id := by simpa using List.find?_some h
    have hkey := hc.keyed _ p hid'
    simp only [hid] at hkey
    rw [hkey]
    exact hid'
  · intro h
    have hmem : p ∈ (queryRoom s.table roomId).peers := mem_view_peers.mpr ⟨id, h⟩
    have hid : p.peerId = id := hc.keyed _ p h
    cases hfind : (queryRoom s.table roomId).peers.find? fun peer => peer.peerId = id with
    | none => exact absurd hid (by simpa using List.find?_eq_none.mp hfind p hmem)
    | some q =>
      have hq : q.peerId = id := by simpa using List.find?_some hfind
      have hmem' := List.mem_of_find?_eq_some hfind
      rw [List.inj_on_of_nodup_map (view_peers_nodup hc roomId) hmem' hmem (hq.trans hid.symm)]

theorem nameKeys_eq (hc : Consistent s) (hp : s.table.peerAt (roomId, id) = some p) :
    nameKeys (queryRoom s.table roomId) id = [nameKey p.name] := by
  unfold nameKeys
  have hmem : ∀ key,
    key ∈ ((queryRoom s.table roomId).names.filter fun row => row.2 = id).map Prod.fst ↔
      key ∈ [nameKey p.name] := by
    intro key
    simp only [List.mem_map, List.mem_filter, Prod.exists, exists_and_right, exists_eq_right,
      decide_eq_true_eq, List.mem_singleton]
    constructor
    · intro hmem
      obtain ⟨q, hq, he⟩ := (hc.names _ _).mp (mem_view_names.mp hmem)
      rw [hp] at hq
      obtain rfl := Option.some.inj hq
      exact (Prod.mk.inj he).2.symm
    · rintro rfl
      exact mem_view_names.mpr ((hc.names _ _).mpr ⟨p, hp, rfl⟩)
  have hnodup :
    (((queryRoom s.table roomId).names.filter fun row => row.2 = id).map Prod.fst).Nodup := by
    have hall : ((queryRoom s.table roomId).names.map Prod.fst).Nodup := by
      simp only [queryRoom, List.map_map]
      exact partition_nodup roomId .name s.table.names
    exact hall.sublist (List.filter_sublist.map _)
  have hperm := (List.perm_ext_iff_of_nodup hnodup (List.nodup_singleton _)).mpr hmem
  exact List.perm_singleton.mp ((List.perm_insertionSort _ _).trans hperm)

end

/-- What a view lets a request rely on later. -/
structure Seen (s : Shared) (roomId : RoomId) (view : RoomView) : Prop where
  host : ∀ room, view.room = some room → HostOf s roomId room.hostPeerId
  named : ∀ p ∈ view.peers,
    Named s roomId p.peerId p.virtualIp p.clientNonce (nameKeys view p.peerId)

theorem Seen.mono {s s' : Shared} {roomId : RoomId} {view : RoomView} (hg : Grows s s')
    (h : Seen s roomId view) : Seen s' roomId view where
  host room hr := (h.host room hr).mono hg
  named p hp := (h.named p hp).mono hg

theorem seen_query {s : Shared} (hc : Consistent s) (roomId : RoomId) :
    Seen s roomId (queryRoom s.table roomId) where
  host room hr := ⟨room, hr, rfl⟩
  named p hp := by
    obtain ⟨id, hid⟩ := mem_view_peers.mp hp
    have hkey : p.peerId = id := hc.keyed _ p hid
    obtain ⟨q, hq, hsame⟩ := hc.recorded _ p hid
    rw [hkey, nameKeys_eq hc hid]
    exact ⟨q, hq, hsame.peerId.symm.trans hkey, hsame.virtualIp.symm, hsame.clientNonce.symm, by
      rw [hsame.name]⟩

theorem peers_length_le {s : Shared} (hc : Consistent s) (roomId : RoomId) :
    (queryRoom s.table roomId).peers.length ≤ MAX_PEERS := by
  have hsub : (queryRoom s.table roomId).peers.map PeerItem.virtualIp ⊆ HOST_VIRTUAL_IP ::
    PARTICIPANT_POOL := by
    intro ip hip
    obtain ⟨p, hp, rfl⟩ := List.mem_map.mp hip
    obtain ⟨id, hid⟩ := mem_view_peers.mp hp
    exact hc.address _ p hid
  have hnodup : ((queryRoom s.table roomId).peers.map PeerItem.virtualIp).Nodup := by
    refine (view_peers_nodup hc roomId).of_map.map_on ?_
    intro p hp q hq he
    obtain ⟨id, hid⟩ := mem_view_peers.mp hp
    obtain ⟨id', hid'⟩ := mem_view_peers.mp hq
    have hk := hc.vips.injective hid hid' (by simp [vipEntry, he])
    rw [hk, hid'] at hid
    exact (Option.some.inj hid).symm
  have hlen := (List.subperm_of_subset hnodup hsub).length_le
  simpa [PARTICIPANT_POOL, MAX_PEERS] using hlen

end Sangtachi.Control
