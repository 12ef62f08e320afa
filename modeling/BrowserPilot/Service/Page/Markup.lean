import BrowserPilot.Json.Printer
import BrowserPilot.Service.Description

/-! The markup of the documentation pages, which load their scripts from elsewhere. -/
namespace BrowserPilot.Service.Page

def remote (host path : Text) : Text := "https://" ++ host ++ path

def package (file : Text) : Text := remote "cdn.jsdelivr.net" ("/npm/" ++ file)

def icon : Text := remote "fastapi.tiangolo.com" "/img/favicon.png"

def fonts : Text := remote "fonts.googleapis.com" "/css?family=Montserrat:300,400,700|Roboto:300,400,700"

def setIn (lines : List Text) : List Text := lines.map fun l => "    " ++ l

/-- The lines of a page after a line break. The last line is its margin alone. -/
def layOut (lines : List Text) (margin : Text) : Text := Text.joinLines (("" : Text) :: lines ++ [margin])

def explorerOptions : List (Text × Json) :=
  [("dom_id", .str "#swagger-ui"), ("layout", .str "BaseLayout"), ("deepLinking", .bool true),
   ("showExtensions", .bool true), ("showCommonExtensions", .bool true)]

def optionLine (option : Text × Json) : Text :=
  (Json.str option.1).compact ++ ": " ++ option.2.compact ++ ","

def explorerLines : List Text :=
  setIn [
    "<!DOCTYPE html>",
    "<html>",
    "<head>",
    "<meta name=\"viewport\" content=\"width=device-width, initial-scale=1.0\">",
    "<link type=\"text/css\" rel=\"stylesheet\" href=\"" ++ package "swagger-ui-dist@5/swagger-ui.css" ++ "\">",
    "<link rel=\"shortcut icon\" href=\"" ++ icon ++ "\">",
    "<title>" ++ Description.title ++ " - Swagger UI</title>",
    "</head>",
    "<body>",
    "<div id=\"swagger-ui\">",
    "</div>",
    "<script src=\"" ++ package "swagger-ui-dist@5/swagger-ui-bundle.js" ++ "\"></script>",
    "<!-- `SwaggerUIBundle` is now available on the page -->",
    "<script>",
    "const ui = SwaggerUIBundle(\x7b",
    "    url: '" ++ Route.describe.path ++ "',"] ++
  setIn ((explorerOptions.take 1).map optionLine) ++ (explorerOptions.drop 1).map optionLine ++
  ["oauth2RedirectUrl: window.location.origin + '" ++ signedIn.path ++ "',"] ++
  setIn [
    "presets: [",
    "    SwaggerUIBundle.presets.apis,",
    "    SwaggerUIBundle.SwaggerUIStandalonePreset",
    "    ],",
    "\x7d)",
    "</script>",
    "</body>",
    "</html>"]

def referenceLines : List Text :=
  setIn [
    "<!DOCTYPE html>",
    "<html>",
    "<head>",
    "<title>" ++ Description.title ++ " - ReDoc</title>",
    "<!-- needed for adaptive design -->",
    "<meta charset=\"utf-8\"/>",
    "<meta name=\"viewport\" content=\"width=device-width, initial-scale=1\">",
    "",
    "<link href=\"" ++ fonts ++ "\" rel=\"stylesheet\">",
    "",
    "<link rel=\"shortcut icon\" href=\"" ++ icon ++ "\">",
    "<!--",
    "ReDoc doesn't change outer page styles",
    "-->",
    "<style>",
    "  body \x7b",
    "    margin: 0;",
    "    padding: 0;",
    "  \x7d",
    "</style>",
    "</head>",
    "<body>",
    "<noscript>",
    "    ReDoc requires Javascript to function. Please enable it to browse the documentation.",
    "</noscript>",
    "<redoc spec-url=\"" ++ Route.describe.path ++ "\"></redoc>",
    "<script src=\"" ++ package "redoc@2/bundles/redoc.standalone.js" ++ "\"> </script>",
    "</body>",
    "</html>"]

/-- The script that passes the result of a sign-in to the explorer. -/
def signedInScript : List Text := List.map Text.ofString [
  "'use strict';",
  "function run () \x7b",
  "    var oauth2 = window.opener.swaggerUIRedirectOauth2;",
  "    var sentState = oauth2.state;",
  "    var redirectUrl = oauth2.redirectUrl;",
  "    var isValid, qp, arr;",
  "",
  "    if (/code|token|error/.test(window.location.hash)) \x7b",
  "        qp = window.location.hash.substring(1).replace('?', '&');",
  "    \x7d else \x7b",
  "        qp = location.search.substring(1);",
  "    \x7d",
  "",
  "    arr = qp.split(\"&\");",
  "    arr.forEach(function (v,i,_arr) \x7b _arr[i] = '\"' + v.replace('=', '\":\"') + '\"';\x7d);",
  "    qp = qp ? JSON.parse('\x7b' + arr.join() + '\x7d',",
  "            function (key, value) \x7b",
  "                return key === \"\" ? value : decodeURIComponent(value);",
  "            \x7d",
  "    ) : \x7b\x7d;",
  "",
  "    isValid = qp.state === sentState;",
  "",
  "    if ((",
  "      oauth2.auth.schema.get(\"flow\") === \"accessCode\" ||",
  "      oauth2.auth.schema.get(\"flow\") === \"authorizationCode\" ||",
  "      oauth2.auth.schema.get(\"flow\") === \"authorization_code\"",
  "    ) && !oauth2.auth.code) \x7b",
  "        if (!isValid) \x7b",
  "            oauth2.errCb(\x7b",
  "                authId: oauth2.auth.name,",
  "                source: \"auth\",",
  "                level: \"warning\",",
  "                message: \"Authorization may be unsafe, passed state was changed in server. " ++
    "The passed state wasn't returned from auth server.\"",
  "            \x7d);",
  "        \x7d",
  "",
  "        if (qp.code) \x7b",
  "            delete oauth2.state;",
  "            oauth2.auth.code = qp.code;",
  "            oauth2.callback(\x7bauth: oauth2.auth, redirectUrl: redirectUrl\x7d);",
  "        \x7d else \x7b",
  "            let oauthErrorMsg;",
  "            if (qp.error) \x7b",
  "                oauthErrorMsg = \"[\"+qp.error+\"]: \" +",
  "                    (qp.error_description ? qp.error_description+ \". \" : " ++
    "\"no accessCode received from the server. \") +",
  "                    (qp.error_uri ? \"More info: \"+qp.error_uri : \"\");",
  "            \x7d",
  "",
  "            oauth2.errCb(\x7b",
  "                authId: oauth2.auth.name,",
  "                source: \"auth\",",
  "                level: \"error\",",
  "                message: oauthErrorMsg || \"[Authorization failed]: no accessCode received from the server.\"",
  "            \x7d);",
  "        \x7d",
  "    \x7d else \x7b",
  "        oauth2.callback(\x7bauth: oauth2.auth, token: qp, isValid: isValid, redirectUrl: redirectUrl\x7d);",
  "    \x7d",
  "    window.close();",
  "\x7d",
  "",
  "if (document.readyState !== 'loading') \x7b",
  "    run();",
  "\x7d else \x7b",
  "    document.addEventListener('DOMContentLoaded', function () \x7b",
  "        run();",
  "    \x7d);",
  "\x7d"]

/-- Lines indented by four blanks, except for empty ones. -/
def setInText (lines : List Text) : List Text := lines.map fun l => if l.isEmpty then l else "    " ++ l

def signedInLines : List Text :=
  setIn [
    "<!doctype html>",
    "<html lang=\"en-US\">",
    "<head>",
    "    <title>Swagger UI: OAuth2 Redirect</title>",
    "</head>",
    "<body>",
    "<script>"] ++
  setInText (setInText signedInScript) ++
  setIn ["</script>", "</body>", "</html>"]

def markup : Page → Text
  | explorer => layOut explorerLines "    "
  | signedIn => layOut signedInLines "        "
  | reference => layOut referenceLines "    "

end BrowserPilot.Service.Page
