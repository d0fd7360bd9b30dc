import CartPatch.Proofs.Hook.Patch

/-!
Hooking in two phases. The cheats of a session are hooked in one step, which checks the code of the
hook before the site, or as a routine whose hook gets its code written afterwards, into the image
that hooking left. Both succeed on the same images, with the same result
(`embed_iff_apply_writeCode`), wherever the code of the hook lies: in either case the site is
written first and the code over it.
-/

namespace CartPatch.Hook

open Outcome

variable {σ : Type} [Storage.SlotStore σ] {image hooked result : Bytes} {d : Descriptor}
  {patch : Patch} {store after : σ}

theorem stored_eq_ok {planned : Except HookError (Patch × Bytes)} :
    (match planned with
      | .error e => (.error e, store)
      | .ok (patch, image) =>
        let (stored, store) := storeRoutine store d patch
        (stored.map fun _ => (patch, image), store)) =
        ((.ok (patch, hooked), after) : Except HookError (Patch × Bytes) × σ) ↔
      planned = .ok (patch, hooked) ∧ storeRoutine store d patch = (.ok (), after) := by
  cases planned with
  | error e => simp
  | ok worked =>
    obtain ⟨patch', hooked'⟩ := worked
    constructor
    · intro heq
      obtain ⟨hresult, hafter⟩ := Prod.mk.inj heq
      obtain ⟨_, hstored, hpair⟩ := map_eq_ok.1 hresult
      cases hpair
      exact ⟨rfl, Prod.ext hstored hafter⟩
    · rintro ⟨hpair, hstored⟩
      cases hpair
      simp only [hstored]
      rfl

theorem apply_eq_ok {routine : Bytes} :
    apply image d routine store = (.ok (patch, hooked), after) ↔
      plan image d routine (Storage.SlotStore.read store d.slot) = .ok patch ∧
        hooked = image.overwrite d.siteOffset (Bytes.ofWords patch.site) ∧
        storeRoutine store d patch = (.ok (), after) := by
  refine stored_eq_ok.trans ?_
  simp only [bind_eq_ok, pure, Except.pure, Except.ok.injEq, Prod.mk.injEq]
  constructor
  · rintro ⟨⟨_, hplan, _, hwritten, rfl, rfl⟩, hstored⟩
    exact ⟨hplan, (writeWords_eq_ok.1 hwritten).2, hstored⟩
  · rintro ⟨hplan, rfl, hstored⟩
    exact ⟨⟨_, hplan, _, writeWords_eq_ok.2 ⟨(site_of_plan hplan).2, rfl⟩, rfl, rfl⟩, hstored⟩

theorem embed_eq_ok {build : Build} {symbols : SymbolTable} {session : Cheat.Session} :
    embed image d build symbols session store = (.ok (patch, result), after) ↔
      planCheats image d build symbols session (Storage.SlotStore.read store d.slot) =
          .ok (patch, result) ∧
        storeRoutine store d patch = (.ok (), after) :=
  stored_eq_ok

/-- Cheats are hooked in one step just when the platform's routine is known, the joined cheats are
hooked as a routine and the code of the hook is written into the image that this leaves. The patch,
the image and the store are the same. -/
theorem embed_iff_apply_writeCode {build : Build} {symbols : SymbolTable}
    {session : Cheat.Session} :
    embed image d build symbols session store = (.ok (patch, result), after) ↔
      ∃ primitive hooked size, symbols.address build readPrimitiveName = .ok primitive ∧
        apply image d session.joined store = (.ok (patch, hooked), after) ∧
        writeCode hooked d primitive = .ok (size, result) := by
  have hlength {stored : Except Storage.StoreError Bytes}
      (hplan : plan image d session.joined stored = .ok patch) :
      (image.overwrite d.siteOffset (Bytes.ofWords patch.site)).length = image.length := by
    refine Bytes.length_overwrite ?_
    rw [Bytes.length_ofWords]
    exact (site_of_plan hplan).2
  simp only [embed_eq_ok, planCheats_eq_ok, apply_eq_ok, writeCode_eq_ok]
  constructor
  · rintro ⟨⟨primitive, code, hprimitive, hcode, hroom, hplan, rfl⟩, hstored⟩
    rw [← hlength hplan] at hroom
    exact ⟨primitive, _, 136, hprimitive, ⟨hplan, rfl, hstored⟩, code, hcode, hroom, rfl, rfl⟩
  · rintro ⟨primitive, _, _, hprimitive, ⟨hplan, rfl, hstored⟩, code, hcode, hroom, -, rfl⟩
    rw [hlength hplan] at hroom
    exact ⟨⟨primitive, code, hprimitive, hcode, hroom, hplan, rfl⟩, hstored⟩

end CartPatch.Hook
