import Mathlib.Data.List.Induction
import TypeAtlas.Registry.Installed

/-!
# One registry for a process

The registry of a process is written once. Requests are refused for faults of their own until one
of them is served. From then on every request is answered with the registry that was built for that
one, and it stays what is installed.
-/

namespace TypeAtlas.Installed

def vacant (tag : UInt64) : Installed := ⟨.none, tag⟩

structure Reports (installed : Installed) (answer : Option Registry) : Prop where
  registry : installed.registry = answer
  isLoaded : installed.isLoaded = answer.isSome

section
variable (linked : Bytes)

def reached (tag : UInt64) (requests : List LoadRequest) : Installed :=
  ((vacant tag).serveAll linked requests).2

def AllRefused (tag : UInt64) (requests : List LoadRequest) : Prop :=
  ∀ answer ∈ ((vacant tag).serveAll linked requests).1, ∃ fault, answer = .error fault

/-- The first request that is not refused is answered with the registry, which was built for it. -/
def ServedFirst (tag : UInt64) (requests : List LoadRequest) (registry : Registry) : Prop :=
  ∃ refused first rest, requests = refused ++ first :: rest ∧ AllRefused linked tag refused ∧
    ((reached linked tag refused).serve linked first).1 = .ok registry ∧
    first.build linked tag = .ok registry

end

variable {linked : Bytes}

/-! ## One request -/

/-- Once a registry is installed nothing is built. -/
theorem serve_of_installed {installed : Installed} {registry : Registry}
    (h : installed.registry = some registry) (request : LoadRequest) :
    installed.serve linked request = (.ok registry, installed) := by
  rw [serve, h]

theorem serve_vacant_of_error {tag : UInt64} {request : LoadRequest} {fault : LoadError}
    (h : request.build linked tag = .error fault) :
    (vacant tag).serve linked request = (.error fault, vacant tag) := by
  simp only [serve, vacant, h]

theorem serve_vacant_of_ok {tag : UInt64} {request : LoadRequest} {registry : Registry}
    (h : request.build linked tag = .ok registry) :
    (vacant tag).serve linked request = (.ok registry, ⟨some registry, tag + 1⟩) := by
  simp only [serve, vacant, h]

/-- Whatever a request is answered with is installed then. -/
theorem registry_of_serve_eq_ok {installed : Installed} {request : LoadRequest}
    {registry : Registry} (h : (installed.serve linked request).1 = .ok registry) :
    (installed.serve linked request).2.registry = some registry := by
  unfold serve at h ⊢
  cases hplace : installed.registry with
  | some found =>
      simp only [hplace] at h ⊢
      cases h
      rfl
  | none =>
      simp only [hplace] at h ⊢
      cases hbuild : request.build linked installed.nextTag with
      | error fault => simp [hbuild] at h
      | ok built => simpa [hbuild] using h

/-! ## Runs of requests -/

theorem serveAll_append (installed : Installed) (earlier later : List LoadRequest) :
    installed.serveAll linked (earlier ++ later) =
      ((installed.serveAll linked earlier).1 ++
          ((installed.serveAll linked earlier).2.serveAll linked later).1,
        ((installed.serveAll linked earlier).2.serveAll linked later).2) := by
  induction earlier generalizing installed with
  | nil => rfl
  | cons request rest ih => simp only [List.cons_append, serveAll, ih]

theorem serveAll_of_installed {installed : Installed} {registry : Registry}
    (h : installed.registry = some registry) (requests : List LoadRequest) :
    installed.serveAll linked requests =
      (List.replicate requests.length (.ok registry), installed) := by
  induction requests with
  | nil => rfl
  | cons request rest ih =>
      simp only [serveAll, serve_of_installed h, ih, List.length_cons, List.replicate_succ]

section
variable {tag : UInt64} {earlier : List LoadRequest} {request : LoadRequest} {registry : Registry}

theorem reached_concat :
    reached linked tag (earlier ++ [request]) =
      ((reached linked tag earlier).serve linked request).2 := by
  rw [reached, serveAll_append]
  rfl

theorem allRefused_concat :
    AllRefused linked tag (earlier ++ [request]) ↔
      AllRefused linked tag earlier ∧
        ∃ fault, ((reached linked tag earlier).serve linked request).1 = .error fault := by
  simp only [AllRefused, reached, serveAll_append, serveAll, List.forall_mem_append,
    List.forall_mem_singleton]

theorem ServedFirst.concat (h : ServedFirst linked tag earlier registry) (request : LoadRequest) :
    ServedFirst linked tag (earlier ++ [request]) registry := by
  obtain ⟨refused, first, rest, rfl, hrefused, hanswer, hbuild⟩ := h
  exact ⟨refused, first, rest ++ [request], by simp, hrefused, hanswer, hbuild⟩

end

/-- From nothing, either all requests are refused and nothing is installed, or the registry of the
first that is not. -/
theorem reached_cases (linked : Bytes) (tag : UInt64) (requests : List LoadRequest) :
    (AllRefused linked tag requests ∧ reached linked tag requests = vacant tag) ∨
    (¬ AllRefused linked tag requests ∧ ∃ registry, ServedFirst linked tag requests registry ∧
      (reached linked tag requests).registry = some registry) := by
  induction requests using List.reverseRecOn with
  | nil => exact .inl ⟨fun _ hanswer => (List.not_mem_nil hanswer).elim, rfl⟩
  | append_singleton earlier request ih =>
      rw [allRefused_concat, reached_concat]
      rcases ih with ⟨hrefused, hplace⟩ | ⟨hserved, registry, hfirst, hplace⟩
      · -- Nothing is installed yet, so the request stands or falls with its own build.
        cases hbuild : request.build linked tag with
        | error fault =>
            left
            rw [hplace, serve_vacant_of_error hbuild]
            exact ⟨⟨hrefused, fault, rfl⟩, rfl⟩
        | ok registry =>
            right
            have hserve := serve_vacant_of_ok hbuild
            rw [← hplace] at hserve
            rw [hserve]
            refine ⟨by simp, registry, ⟨earlier, request, [], rfl, hrefused, ?_, hbuild⟩, rfl⟩
            rw [hserve]
      · right
        rw [serve_of_installed hplace]
        exact ⟨fun h => hserved h.1, registry, hfirst.concat request, hplace⟩

section
variable {tag : UInt64} {earlier : List LoadRequest} {request : LoadRequest}

theorem serve_eq_error_iff {fault : LoadError} :
    ((reached linked tag earlier).serve linked request).1 = .error fault ↔
      AllRefused linked tag earlier ∧ request.build linked tag = .error fault := by
  rcases reached_cases linked tag earlier with ⟨hrefused, hplace⟩ | ⟨hserved, registry, -, hplace⟩
  · rw [hplace]
    cases hbuild : request.build linked tag with
    | error other => simp [serve_vacant_of_error hbuild, hrefused]
    | ok registry => simp [serve_vacant_of_ok hbuild]
  · simp [serve_of_installed hplace, hserved]

theorem reports_of_refused {fault : LoadError}
    (h : ((reached linked tag earlier).serve linked request).1 = .error fault) :
    ((reached linked tag earlier).serve linked request).2.Reports .none := by
  have hrefused : AllRefused linked tag (earlier ++ [request]) :=
    allRefused_concat.mpr ⟨(serve_eq_error_iff.mp h).1, fault, h⟩
  rw [← reached_concat]
  rcases reached_cases linked tag (earlier ++ [request]) with ⟨-, hplace⟩ | ⟨hserved, -⟩
  · rw [hplace]
    exact ⟨rfl, rfl⟩
  · exact absurd hrefused hserved

/-- Whatever is answered was built for the first request that was not refused. -/
theorem servedFirst_of_serve {registry : Registry}
    (h : ((reached linked tag earlier).serve linked request).1 = .ok registry) :
    ServedFirst linked tag (earlier ++ [request]) registry := by
  have hsome : ¬ AllRefused linked tag (earlier ++ [request]) := by
    intro hrefused
    obtain ⟨-, fault, hfault⟩ := allRefused_concat.mp hrefused
    cases hfault.symm.trans h
  rcases reached_cases linked tag (earlier ++ [request]) with
    ⟨hrefused, -⟩ | ⟨-, found, hfirst, hplace⟩
  · exact absurd hrefused hsome
  · rw [reached_concat, registry_of_serve_eq_ok h] at hplace
    cases hplace
    exact hfirst

end

/-- A request is refused exactly when all before it were and it cannot be built itself, and then
nothing is installed. Otherwise it is answered with the registry of the first that was not refused;
this one is what is installed then, it stays so, and it answers whatever is asked for later. -/
theorem serveAll_installs_once (linked : Bytes) (tag : UInt64) (earlier : List LoadRequest)
    (request : LoadRequest) (later : List LoadRequest) :
    let before := (vacant tag).serveAll linked earlier
    let now := before.2.serve linked request
    let after := now.2.serveAll linked later
    (vacant tag).serveAll linked (earlier ++ request :: later) =
      (before.1 ++ now.1 :: after.1, after.2) ∧
    (∀ fault, now.1 = .error fault ↔
      (∀ answer ∈ before.1, ∃ other, answer = .error other) ∧
        request.build linked tag = .error fault) ∧
    (∀ fault, now.1 = .error fault → now.2.Reports .none) ∧
    ∀ registry, now.1 = .ok registry →
      ServedFirst linked tag (earlier ++ [request]) registry ∧ now.2.Reports (some registry) ∧
      (∀ answer ∈ after.1, answer = .ok registry) ∧ after.2.Reports (some registry) := by
  refine ⟨serveAll_append .., fun _ => serve_eq_error_iff, fun _ => reports_of_refused, ?_⟩
  intro registry hanswer
  have hplace := registry_of_serve_eq_ok hanswer
  have hreports := (⟨hplace, congrArg Option.isSome hplace⟩ : Reports _ (some registry))
  rw [serveAll_of_installed hplace]
  refine ⟨servedFirst_of_serve hanswer, hreports, ?_, hreports⟩
  intro answer hmem
  exact (List.mem_replicate.mp hmem).2

/-- A blob that ends too early is refused until the linked one, here empty, is installed. -/
example : ((vacant 1).serveAll [] [.passing [0xFF] .raw, .linked, .passing [0xFF] .raw]).1 =
    [.error (.blob (.unexpectedEnd 0 8)), .ok (.empty 1), .ok (.empty 1)] := by
  decide +kernel

end TypeAtlas.Installed
