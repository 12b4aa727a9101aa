/- Module: EmergenceOS/Vdev/BmtValue
   digest: Route, checksum and payload of one entry, whatever the order of the updates. -/

import EmergenceOS.Vdev.BmtWalk

/-!
The payload takes the low word and 40 bits of the high one, checksum and route its upper
twelve. The twelve bits between belong to no field, but the checksum counts them.
-/

set_option autoImplicit false
set_option relaxedAutoImplicit false

namespace EmergenceOS.Vdev.BmtTopology

open EmergenceOS.Lib.Bytes

namespace Value128

theorem getPayload_congr {v v' : Value128} (h : ∀ k < 13, v.payloadByte k = v'.payloadByte k)
    (out : Buffer) (maxBytes : Nat) : v.getPayload out maxBytes = v'.getPayload out maxBytes := by
  rw [getPayload_eq, getPayload_eq]
  congr 1
  exact blit_congr out 0 fun k hk => h _ (by omega)

/-- A new payload leaves the bits of the other fields as they are. -/
theorem setPayload_topBit (v : Value128) (data : Buffer) (d len : Nat) {i : Nat} (hi : 52 ≤ i) :
    (v.setPayload data d len).hi.getLsbD i = v.hi.getLsbD i := by
  simp only [setPayload, BitVec.getLsbD_or, BitVec.getLsbD_and, topMask_getLsbD,
    ofBytes_getLsbD]
  by_cases h64 : i < 64
  · simp [h64, show ¬i < 52 by omega, show ¬i < 8 * min 5 (len - 8) by omega]
  · simp [h64, BitVec.getLsbD_of_ge v.hi i (by omega)]

theorem route_setPayload (v : Value128) (data : Buffer) (d len : Nat) :
    (v.setPayload data d len).route = v.route := by
  apply BitVec.eq_of_getLsbD_eq
  intro i _
  simp only [route, BitVec.getLsbD_and, BitVec.getLsbD_setWidth, BitVec.getLsbD_ushiftRight,
    setPayload_topBit v data d len (show 52 ≤ 54 + i by omega)]

/-- An entry from which 13 given bytes and a route are read back. -/
structure Carries (v : Value128) (data : Buffer) (d : Nat) (r : BitVec 16) : Prop where
  payload : ∀ out, v.getPayload out payloadBytesPerHop =
    (payloadBytesPerHop, blit out 0 data d payloadBytesPerHop)
  route : v.route = r &&& lensMask

theorem carries_of_payload {v : Value128} {data : Buffer} {d : Nat} {r : BitVec 16}
    (hpayload : ∀ k < 13, v.payloadByte k = data (d + k)) (hroute : v.route = r &&& lensMask) :
    v.Carries data d r := by
  refine ⟨fun out => ?_, hroute⟩
  rw [getPayload_eq]
  congr 1
  exact blit_congr out 0 fun k hk => by
    rw [Nat.zero_add]
    exact hpayload k hk

theorem payloadByte_setPayload_hop (v : Value128) (data : Buffer) (d : Nat) :
    ∀ k < 13, (v.setPayload data d payloadBytesPerHop).payloadByte k = data (d + k) := by
  intro k hk
  rw [payloadByte_setPayload v data d _ hk, if_pos (show k < payloadBytesPerHop from hk)]

theorem carries_packRoute_setPayload (v : Value128) (data : Buffer) (d : Nat) (r : BitVec 16) :
    ((v.setPayload data d payloadBytesPerHop).packRoute r).Carries data d r := by
  refine carries_of_payload (fun k hk => ?_) (route_packRoute _ r)
  rw [payloadByte_packRoute _ r hk, payloadByte_setPayload_hop v data d k hk]

theorem carries_setPayload_packRoute (v : Value128) (data : Buffer) (d : Nat) (r : BitVec 16) :
    ((v.packRoute r).setPayload data d payloadBytesPerHop).Carries data d r := by
  refine carries_of_payload (payloadByte_setPayload_hop _ data d) ?_
  rw [route_setPayload, route_packRoute]

theorem readFrom_stored (v : Value128) (buf : Buffer) (o : Nat) :
    readFrom (blit buf o v.writeTo 0 16) o = v := by
  rw [← readFrom_writeTo v]
  apply readFrom_congr
  intro i hi
  rw [blit_inside _ _ (by omega) (by omega), Nat.add_sub_cancel_left, readFrom_writeTo]

/-- The laws of one entry: both updates in both orders, what each leaves alone, what a short
payload clears, and the way through memory. -/
theorem value_laws (v : Value128) (data : Buffer) (d : Nat) (r : BitVec 16) :
    ((v.setPayload data d payloadBytesPerHop).packRoute r).Carries data d r ∧
    ((v.packRoute r).setPayload data d payloadBytesPerHop).Carries data d r ∧
    (∀ out maxBytes, (v.packRoute r).getPayload out maxBytes = v.getPayload out maxBytes) ∧
    (v.packRoute r).crcValid ∧
    (∀ len < payloadBytesPerHop, ∀ out, ∀ k < payloadBytesPerHop,
      ((v.setPayload data d len).getPayload out payloadBytesPerHop).2 k =
        if k < len then data (d + k) else 0) ∧
    ∀ buf o, readFrom (blit buf o v.writeTo 0 16) o = v := by
  refine ⟨carries_packRoute_setPayload v data d r, carries_setPayload_packRoute v data d r,
    getPayload_congr fun k hk => payloadByte_packRoute v r hk, crcValid_packRoute v r, ?_,
    readFrom_stored v⟩
  intro len hlen out k hk
  rw [getPayload_hop_apply _ out hk, payloadByte_setPayload v data d len hk]

end Value128

end EmergenceOS.Vdev.BmtTopology
