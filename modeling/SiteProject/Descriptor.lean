import SiteProject.Path.Declared
import SiteProject.Reference.Hints
import SiteProject.Solution.Project
import SiteProject.Xml.Markup

namespace SiteProject.Descriptor

open Xml (Markup)

/-- The assemblies that every site can use without declaring them. -/
def frameworkAssemblies : List String :=
  ["System", "System.Data", "System.Drawing", "System.Web", "System.Web.Extensions",
   "System.Web.Services", "System.Xml", "System.Configuration", "System.Xml.Linq"]

/-- What lies below the site's folder and is not compiled. -/
def excluded : List (List String) :=
  [["obj", "**"], ["bin", "**"], ["Bin", "**"], ["App_Data", "**"], ["Packages", "**"],
   ["node_modules", "**"], ["**", "Temporary ASP.NET Files", "**"], ["Properties", "AssemblyInfo.cs"]]

def contentExtensions : List String :=
  ["aspx", "ascx", "master", "ashx", "asmx", "config", "asax"]

/-- A pattern below the site's folder. -/
def below (folder : Text) (segments : List String) : Text :=
  Declared.join folder (segments.map String.toList)

def propertyGroup (s : Solution.Site) : Markup :=
  .block 1 "PropertyGroup" []
    [some (.element "Configuration".toList
        [("Condition".toList, " '$(Configuration)' == '' ".toList)] [.chars "Debug".toList]),
     some (.element "Platform".toList
        [("Condition".toList, " '$(Platform)' == '' ".toList)] [.chars "AnyCPU".toList]),
     some (.leaf "ProjectGuid" (['\x7b'] ++ Xml.escape s.guid ++ ['\x7d'])),
     some (.leaf "OutputType" "Library".toList),
     some (.leaf "RootNamespace" (Xml.escape (Text.replace '.' '_' s.name))),
     some (.leaf "AssemblyName" (Xml.escape s.name)),
     some (.leaf "TargetFrameworkVersion" (Xml.escape s.framework))]

def frameworkReference (name : String) : Markup :=
  .empty "Reference".toList [("Include".toList, name.toList)]

def reference (folder : Text) (hints : Reference.Hints) (r : Solution.Reference) : Markup :=
  let hint := (hints.get? r.dll).getD (Reference.binHint folder r.dll)
  .block 2 "Reference" [("Include".toList, Xml.escape r.assemblyName)]
    [some (.leaf "HintPath" (Xml.escapePath hint)), some (.leaf "Private" "False".toList)]

def referenceGroup (folder : Text) (hints : Reference.Hints) (rs : List Solution.Reference) :
    Markup :=
  .block 1 "ItemGroup" []
    ([some (.comment "Framework references".toList)] ++
      frameworkAssemblies.map (fun name => some (frameworkReference name)) ++
      [none, some (.comment "References declared by the Web Site".toList)] ++
      rs.map fun r => some (reference folder hints r))

def compileGroup (folder : Text) : Markup :=
  .block 1 "ItemGroup" []
    [some (.empty "Compile".toList
      [("Include".toList, Xml.escapePath (below folder ["**", "*.cs"])),
       ("Exclude".toList, Xml.escapePath (Text.join [';'] (excluded.map (below folder))))])]

def contentGroup (folder : Text) : Markup :=
  .block 1 "ItemGroup" [] (contentExtensions.map fun ext =>
    some (.empty "Content".toList
      [("Include".toList, Xml.escapePath (below folder ["**", "*." ++ ext]))]))

def buildTarget : Markup :=
  .block 1 "Target" [("Name".toList, "Build".toList)]
    [some (.empty "Message".toList
      [("Text".toList, "[INFO] sln2csproj project for IntelliSense only".toList),
       ("Importance".toList, "high".toList)])]

/-- The project of a site whose folder is `siteFolder` from where the project is written. -/
def project (s : Solution.Site) (siteFolder : Text) (hints : Reference.Hints) : Markup :=
  let folder := Declared.trimSeparators siteFolder
  .block 0 "Project"
    [("ToolsVersion".toList, "15.0".toList),
     ("xmlns".toList, "http://schemas.microsoft.com/developer/msbuild/2003".toList)]
    [some (propertyGroup s), none, some (referenceGroup folder hints s.references), none,
     some (compileGroup folder), none, some (contentGroup folder), none,
     some (.empty "Import".toList
      [("Project".toList, "$(MSBuildToolsPath)\\Microsoft.CSharp.targets".toList)]), none,
     some buildTarget]

def preamble : Text := "<?xml version=\"1.0\" encoding=\"utf-8\"?>\n".toList

/-- The project file that stands in for a Web Site in an editor. It compiles the site's sources, lists its
pages as content and refers to its binaries; building it does nothing. -/
def text (s : Solution.Site) (siteFolder : Text) (hints : Reference.Hints) : Text :=
  preamble ++ Markup.renderAll (Markup.lines 0
    [some (.comment "Generated by sln2csproj".toList),
     some (.comment "IntelliSense only: do not build this project".toList),
     some (project s siteFolder hints)])

end SiteProject.Descriptor
