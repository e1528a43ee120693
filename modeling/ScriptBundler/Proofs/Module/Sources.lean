import ScriptBundler.Proofs.Graph.Growth
import ScriptBundler.Proofs.Module.Reexports

/-!
# Modules that stem from sources

What is marked in a module, and where its imports lead, changes while a graph is built.  The rest is
as it was when the module was read, so that what a source says of its statements and tables is true
of the module later on.
-/

namespace ScriptBundler
namespace Module

open Files Script

/-- Whether a module is what has become of one that was read. -/
def Sourced (module : Module) : Prop :=
  ∃ path source earlier, Module.ofSource path source = .ok earlier ∧
    module.asRead = earlier.asRead

variable {module : Module}

theorem Sourced.of_ofSource {path : Path} {source : List Char}
    (hsource : Module.ofSource path source = .ok module) : module.Sourced :=
  ⟨path, source, module, hsource, rfl⟩

theorem Sourced.of_asRead {later : Module} (hsourced : module.Sourced)
    (hrest : later.asRead = module.asRead) : later.Sourced := by
  obtain ⟨path, source, earlier, hsource, hearlier⟩ := hsourced
  exact ⟨path, source, earlier, hsource, hrest.trans hearlier⟩

end Module
end ScriptBundler
