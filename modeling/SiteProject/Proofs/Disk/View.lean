import SiteProject.Disk.Tree
import SiteProject.Proofs.Disk.Run

namespace SiteProject

structure DiskView where
  present : Path → Bool
  text : Path → Except DiskFailure Text

/-- In a state, a disk gives the answers of a view, and looking leaves the state. -/
structure Views {σ : Type} [Disk (StateM σ)] (s : σ) (v : DiskView) : Prop where
  exists? (p : Path) : ((Disk.exists? p : StateM σ Bool).run s).run = (v.present p, s)
  readText (p : Path) :
    ((Disk.readText p : ExceptT DiskFailure (StateM σ) Text).run.run s).run = (v.text p, s)

namespace MemoryDisk

def view (d : MemoryDisk) : DiskView where
  present := d.hasPath
  text p := (d.readText p).1

theorem views_view (d : MemoryDisk) : Views d d.view where
  exists? _ := rfl
  readText p := by
    obtain ⟨_, hr⟩ := run_readText p d
    exact Prod.ext rfl (Prod.ext_iff.1 hr).2

end MemoryDisk

namespace Tree

def view (t : Tree) : DiskView where
  present := t.exists?
  text p := (t.readText p).mapError (DiskFailure.mk p)

theorem views_view (t : Tree) : Views t t.view where
  exists? _ := rfl
  readText _ := rfl

end Tree
end SiteProject
