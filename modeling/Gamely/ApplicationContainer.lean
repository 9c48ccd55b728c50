import Gamely.ContainerContract

/-!
# The container of the application

The registrations of `build_container`. A request resolves the controller, and the
session is what everything else of the request stands on.
-/

set_option autoImplicit false

namespace Gamely.ApplicationContainer
open Gamely.Calls Gamely.Container Gamely.ContainerContract

inductive Service where
  | settings
  | applicationServices
  | asyncSession
  | authRepository
  | tokenService
  | emailPublisher
  | emailFilter
  | redisRateLimiter
  | emailFilterWarmer
  | emailAvailabilityService
  | authService
  | oauthService
  | authController
  deriving DecidableEq, Repr

variable {E : Type}

/-- The registrations of `build_container`, for settings that are there before. -/
def registrations (settings : Instance) : List (Service × ServiceDescriptor Service E) := [
  (.settings, ⟨.singleton, fun _ => .done (.existing settings)⟩),
  (.applicationServices, ⟨.singleton, fun _ => construct [.settings]⟩),
  (.asyncSession, ⟨.scoped, fun _ => construct [.applicationServices]⟩),
  (.authRepository, ⟨.scoped, fun _ => construct [.asyncSession]⟩),
  (.tokenService, ⟨.transient, fun _ => construct [.applicationServices, .settings]⟩),
  (.emailPublisher, ⟨.transient, fun _ => construct [.applicationServices]⟩),
  (.emailFilter, ⟨.transient, fun _ => construct [.applicationServices, .settings]⟩),
  (.redisRateLimiter, ⟨.transient, fun _ => construct [.applicationServices]⟩),
  (.emailFilterWarmer, ⟨.transient, fun _ =>
    construct [.applicationServices, .applicationServices, .settings]⟩),
  (.emailAvailabilityService, ⟨.scoped, fun _ =>
    construct [.authRepository, .emailFilter, .redisRateLimiter, .settings]⟩),
  (.authService, ⟨.scoped, fun _ => construct
    [.authRepository, .tokenService, .applicationServices, .emailPublisher, .emailFilter,
      .settings]⟩),
  (.oauthService, ⟨.scoped, fun _ => construct
    [.authRepository, .tokenService, .applicationServices, .emailFilter, .settings]⟩),
  (.authController, ⟨.scoped, fun _ => construct
    [.authService, .oauthService, .tokenService, .emailAvailabilityService, .settings]⟩)]

def buildContainer (settings : Instance) : Except Service (ServiceCollection Service E) :=
  ServiceCollection.empty.addAll (registrations settings)

def application (settings : Instance) : ServiceCollection Service E where
  descriptors := registrations settings
  nodup := by simp [registrations]

/-- No service is registered twice, so the container is built. -/
theorem buildContainer_ok (settings : Instance) :
    buildContainer settings = (.ok (application settings) :
      Except Service (ServiceCollection Service E)) :=
  addAll_ok .empty (application settings).nodup

/-- How many steps a service is above the settings. -/
def level : Service → ℕ
  | .settings => 0
  | .applicationServices => 1
  | .asyncSession | .tokenService | .emailPublisher | .emailFilter => 2
  | .redisRateLimiter | .emailFilterWarmer => 2
  | .authRepository => 3
  | .emailAvailabilityService | .authService | .oauthService => 4
  | .authController => 5

theorem application_factory {settings : Instance} {s : Service}
    {descriptor : ServiceDescriptor Service E}
    (hd : (application settings).descriptors.lookup s = some descriptor) (k : ℕ) :
    descriptor.factory k = .done (.existing settings) ∧ descriptor.lifetime = .singleton ∨
      ∃ dependencies, descriptor.factory k = construct dependencies ∧
        ∀ t ∈ dependencies, level t < level s := by
  cases s with
  | settings =>
    cases hd
    exact Or.inl ⟨rfl, rfl⟩
  | _ =>
    cases hd
    exact Or.inr ⟨_, rfl, by decide⟩

theorem application_acyclic (settings : Instance) :
    Acyclic (application settings : ServiceCollection Service E) := by
  apply acyclic_of_lt level
  rintro s t ⟨-, descriptor, k, hd, hmay⟩
  rcases application_factory hd k with ⟨hf, -⟩ | ⟨dependencies, hf, hlt⟩
  · rw [hf] at hmay
    exact hmay.elim
  · rw [hf] at hmay
    exact hlt t (may_construct hmay)

theorem application_confined (n : ℕ) :
    AllConfined (application (.outside n) : ServiceCollection Service E) := by
  intro s descriptor k hd
  rcases application_factory hd k with ⟨hf, -⟩ | ⟨dependencies, hf, -⟩
  · rw [hf]
    exact Or.inl ⟨n, rfl⟩
  · rw [hf]
    exact confined_construct _ _

theorem application_fresh (settings : Instance) :
    ScopedFresh (application settings : ServiceCollection Service E) := by
  intro s descriptor k hd hs
  rcases application_factory hd k with ⟨-, hl⟩ | ⟨dependencies, hf, -⟩
  · rw [hl] at hs
    cases hs
  · rw [hf]
    exact makesFresh_construct _

end Gamely.ApplicationContainer
